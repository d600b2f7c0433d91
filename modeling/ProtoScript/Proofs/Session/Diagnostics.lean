import ProtoScript.Proofs.Recording.Trace
import ProtoScript.Proofs.Session.Discipline

/-!
# The diagnostics of a statement

A session reports for a statement exactly the problems that were raised while it ran, in the order in
which they were raised, each of them for the file of the innermost import that was running.  None is
lost on the way: the error that an evaluation ends with is the one that was recorded last, so what is
reported is never made up from an interruption alone.  Only an import goes on after an error; where
none was run, a statement that fails has one error.
-/

namespace ProtoScript

open Occurrence (allDiagnostics WithoutImports)
open Eval (Oblivious Records Traces ended)

namespace Session

/-- A statement as a session runs it: a `return` that leaves no procedure is an error. -/
def attempt (n : Nat) (s : Statement) : Eval Value :=
  refuseReturn (Eval.run n (.statement s))

/-- Refusing a `return` is oblivious: it is handled, and everything else is handed on. -/
theorem oblivious_refuseReturn {x : Eval Value} (hx : Oblivious x) : Oblivious (refuseReturn x) := by
  refine .recover (fun e => ∃ pos, e = .returned pos) (fun _ ⟨_, h⟩ => nomatch h) hx ?_ ?_ ?_
  · intro v
    exact .pure v
  · rintro _ ⟨pos, rfl⟩
    exact (Oblivious.updateRest fun _ _ => rfl).bind fun _ => .raise _ pos
  · intro e he
    refine ⟨id, .of_scopes fun _ _ => rfl, ?_⟩
    cases e with
    | returned pos => exact absurd ⟨pos, rfl⟩ he
    | _ => exact fun _ => rfl

/-- Every statement that a session runs has a trace. -/
theorem exists_traces_attempt (n : Nat) (s : Statement) (m : Machine) :
    ∃ t, Traces false (attempt n s) m t :=
  (oblivious_refuseReturn (Eval.run_oblivious n (.statement s))).exists_traces false m

/-- An error that a piece of work ends with was recorded last. -/
theorem getLast?_raised {α : Type} {x : Eval α} (hx : Oblivious x) {m m' : Machine} {d : Diagnostic}
    (h : x m = .error (.raised d) m') : m'.raised.getLast? = some d := by
  obtain ⟨t, ht⟩ := hx.exists_traces false m
  have hrecords := ht.records
  rw [h] at hrecords
  have hraised : m'.raised = m.raised ++ allDiagnostics m.file t := hrecords.raised_eq
  rw [hraised, List.getLast?_append, ht.getLast? h]
  rfl

/-- A `return` outside of procedures does not come out. -/
theorem refuseReturn_ne_returned (x : Eval Value) (m : Machine) (pos : Position) (m' : Machine) :
    refuseReturn x m ≠ .error (.returned pos) m' := by
  rw [refuseReturn_apply]
  match x m with
  | .ok _ _ | .error (.returned _) _ | .error (.raised _) _ | .error (.exited _) _
  | .error (.awaiting _) _ | .error .exhausted _ => exact nofun

/-- What a session observes of a statement: a value, or an error, which was recorded last. -/
theorem observe_attempt {n : Nat} {s : Statement} {m m' : Machine} {outcome : Except Interruption Value}
    (h : observe (attempt n s) m = .ok outcome m') :
    m' = ended (attempt n s m) ∧
      ((∃ v, outcome = .ok v) ∨ ∃ d, outcome = .error (.raised d) ∧ m'.raised.getLast? = some d) := by
  have hlast {d : Diagnostic} {m₁ : Machine} (hx : attempt n s m = .error (.raised d) m₁) :=
    getLast?_raised (oblivious_refuseReturn (Eval.run_oblivious n (.statement s))) hx
  rcases observe_cases h with ⟨v, rfl, hx⟩ | ⟨d, rfl, hx⟩ | ⟨pos, -, hx⟩
  · rw [hx]
    exact ⟨rfl, .inl ⟨v, rfl⟩⟩
  · rw [hx]
    exact ⟨rfl, .inr ⟨d, rfl, hlast hx⟩⟩
  · exact absurd hx (refuseReturn_ne_returned _ m pos m')

/-- A statement fails if and only if something was recorded while it ran, and that is what is
reported. -/
theorem execute_reported {n : Nat} {s : Statement} {m m' : Machine}
    {r : Except (List Diagnostic) Value} (h : execute n s m = .ok r m') :
    (∃ v, r = .ok v ∧ (ended (attempt n s { m with raised := [] })).raised = []) ∨
      r = .error (ended (attempt n s { m with raised := [] })).raised ∧
        (ended (attempt n s { m with raised := [] })).raised ≠ [] := by
  rw [execute_apply, ← attempt] at h
  cases hobserve : observe (attempt n s) { m with raised := [] } with
  | error stop m₁ =>
    rw [hobserve] at h
    cases h
  | ok outcome m₁ =>
    obtain ⟨hm₁, houtcome⟩ := observe_attempt hobserve
    rw [← hm₁]
    rw [hobserve] at h
    rcases houtcome with ⟨v, rfl⟩ | ⟨d, rfl, hlast⟩
    · cases hraised : m₁.raised with
      | nil =>
        simp only [hraised] at h
        cases h
        exact .inl ⟨v, rfl, rfl⟩
      | cons d ds =>
        simp only [hraised] at h
        cases h
        exact .inr ⟨rfl, List.cons_ne_nil _ _⟩
    · cases hraised : m₁.raised with
      | nil =>
        rw [hraised] at hlast
        cases hlast
      | cons d ds =>
        simp only [hraised] at h
        cases h
        exact .inr ⟨rfl, List.cons_ne_nil _ _⟩

/-- What is reported for a statement is what was raised while it ran. -/
theorem execute_of_traces {n : Nat} {s : Statement} {m m' : Machine}
    {r : Except (List Diagnostic) Value} {t : List Occurrence}
    (ht : Traces false (attempt n s) { m with raised := [] } t) (h : execute n s m = .ok r m') :
    (∃ v, r = .ok v ∧ allDiagnostics m.file t = []) ∨
      r = .error (allDiagnostics m.file t) ∧ allDiagnostics m.file t ≠ [] := by
  have hraised : (ended (attempt n s { m with raised := [] })).raised = allDiagnostics m.file t :=
    ht.records.raised_eq.trans (List.nil_append _)
  have hreported := execute_reported h
  rw [hraised] at hreported
  exact hreported

/-- Without imports, at most one problem is raised while a statement runs. -/
theorem length_allDiagnostics_le {n : Nat} {s : Statement} {m : Machine} {t : List Occurrence}
    (ht : Traces false (attempt n s) m t) (hfree : WithoutImports t) (file : String) :
    (allDiagnostics file t).length ≤ 1 := by
  rw [hfree.length_allDiagnostics]
  exact (ht.is_single rfl hfree).length_le

/-- No diagnostic is lost, made up or reported twice.  Whatever happens while a statement runs, it fails
if and only if a problem was raised, and what is reported are the problems that were raised, in their
order and for the file of the import around each of them; if no import was run, that is a single one.
Any work that ends with an error has recorded it last, so the errors of a statement that fails have
always been recorded. -/
theorem diagnostics_complete (n : Nat) (s : Statement) (m : Machine) :
    (∃ t, Traces false (attempt n s) { m with raised := [] } t) ∧
    (∀ t r m', Traces false (attempt n s) { m with raised := [] } t → execute n s m = .ok r m' →
      ((∃ ds, r = .error ds) ↔ allDiagnostics m.file t ≠ []) ∧
      (∀ ds, r = .error ds → ds = allDiagnostics m.file t) ∧
      (WithoutImports t → ∀ ds, r = .error ds → ds.length = 1)) ∧
    (∀ w d m', Eval.run n w m = .error (.raised d) m' → m'.raised.getLast? = some d) ∧
    ∀ e m', observe (attempt n s) { m with raised := [] } = .ok (.error e) m' →
      ∃ d, e = .raised d ∧ m'.raised.getLast? = some d := by
  refine ⟨exists_traces_attempt n s _, ?_, ?_, ?_⟩
  · intro t r m' ht h
    rcases execute_of_traces ht h with ⟨v, rfl, hnone⟩ | ⟨rfl, hsome⟩
    · refine ⟨⟨?_, fun hne => absurd hnone hne⟩, nofun, fun _ => nofun⟩
      rintro ⟨ds, hds⟩
      cases hds
    · refine ⟨⟨fun _ => hsome, fun _ => ⟨_, rfl⟩⟩, ?_, ?_⟩
      · intro ds hds
        cases hds
        rfl
      · intro hfree ds hds
        cases hds
        have hle := length_allDiagnostics_le ht hfree m.file
        have hpos := List.length_pos_iff.mpr hsome
        omega
  · intro w d m' h
    exact getLast?_raised (Eval.run_oblivious n w) h
  · intro e m' h
    rcases (observe_attempt h).2 with ⟨v, hv⟩ | ⟨d, hd, hlast⟩
    · cases hv
    · cases hd
      exact ⟨d, rfl, hlast⟩

/-- The block `{ import "lib"; gone; }`, where the imported file holds `nope; 1; nada;`. -/
def failingThrice : Statement :=
  .block ⟨[.importFile "lib" "lib"
      [.expression (.variable "nope" ⟨1, 1⟩), .expression (.literal (.int 1) ⟨2, 1⟩),
        .expression (.variable "nada" ⟨3, 1⟩)] ⟨1, 3⟩,
    .expression (.variable "gone" ⟨1, 17⟩)], ⟨1, 1⟩⟩

set_option maxRecDepth 4000 in
/-- Two errors of the import are reported for its file, and then the one that ends the block. -/
theorem diagnostics_complete_failingThrice :
    ∃ t ds m', Traces false (attempt 5 failingThrice) { Machine.bare with raised := [] } t ∧
      execute 5 failingThrice .bare = .ok (.error ds) m' ∧ ds = allDiagnostics "main" t ∧
      ds = [Problem.diagnostic (.undefinedVariable "nope") "lib" ⟨1, 1⟩,
        Problem.diagnostic (.undefinedVariable "nada") "lib" ⟨3, 1⟩,
        Problem.diagnostic (.undefinedVariable "gone") "main" ⟨1, 17⟩] := by
  obtain ⟨⟨t, ht⟩, hreports, -, -⟩ := diagnostics_complete 5 failingThrice .bare
  obtain ⟨ds, m', hrun, hds⟩ : ∃ ds m', execute 5 failingThrice .bare = .ok (.error ds) m' ∧
      ds = [Problem.diagnostic (.undefinedVariable "nope") "lib" ⟨1, 1⟩,
        Problem.diagnostic (.undefinedVariable "nada") "lib" ⟨3, 1⟩,
        Problem.diagnostic (.undefinedVariable "gone") "main" ⟨1, 17⟩] := ⟨_, _, rfl, rfl⟩
  exact ⟨t, ds, m', ht, hrun, (hreports t _ m' ht hrun).2.1 ds rfl, hds⟩

end Session

end ProtoScript
