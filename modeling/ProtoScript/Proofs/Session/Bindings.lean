import ProtoScript.Proofs.Session.Diagnostics

/-!
# Names stay bound

Scopes are never removed, and a name that is bound in a scope is never bound there again.  So whatever is
evaluated, and however that ends, every name stays bound to the same variable; in particular the names
that a statement declares stay bound for the rest of the session.
-/

namespace ProtoScript

namespace Scopes

/-! ## Names that stay bound -/

/-- Every name that is bound in a scope is bound there to the same variable later. -/
def Keeps (s t : Scopes) : Prop :=
  ∀ r name c, s.findLocal? r name = some c → t.findLocal? r name = some c

theorem Keeps.refl (s : Scopes) : s.Keeps s :=
  fun _ _ _ hc => hc

/-- What is kept in two steps is kept. -/
theorem Keeps.trans {s t u : Scopes} (hst : s.Keeps t) (htu : t.Keeps u) : s.Keeps u :=
  fun r name c hc => htu r name c (hst r name c hc)

/-- A name of the root scope is found there. -/
theorem find?_root {s : Scopes} {name : String} {c : CellRef} (hc : s.findLocal? root name = some c) :
    s.find? root name = some c := by
  have hpos : 0 < s.scopes.size := lt_of_findLocal? hc
  obtain ⟨size, hsize⟩ := Nat.exists_eq_succ_of_ne_zero (Nat.ne_of_gt hpos)
  unfold find?
  rw [hsize, findWithin?, hc]

/-- A name of the root scope is found from every scope, if only behind another one. -/
theorem exists_find? {s : Scopes} (hs : s.Nested) {name : String} {c : CellRef}
    (hc : s.findLocal? root name = some c) {r : ScopeRef} (hr : r.index < s.scopes.size) :
    ∃ c', s.find? r name = some c' := by
  -- each step leads to an older scope, so there are enough steps to come to the root
  have hwalk : ∀ (fuel : Nat) (r : ScopeRef), r.index < fuel → r.index < s.scopes.size →
      ∃ c', s.findWithin? name fuel r = some c' := by
    intro fuel
    induction fuel with
    | zero => exact fun r hlt _ => absurd hlt (Nat.not_lt_zero _)
    | succ fuel ih =>
      intro r hlt hr
      unfold findWithin?
      cases hlocal : s.findLocal? r name with
      | some c' => exact ⟨c', rfl⟩
      | none =>
        have hne : r ≠ root := by
          rintro rfl
          rw [hc] at hlocal
          cases hlocal
        obtain ⟨p, hp, holder⟩ := hs.parent_older r hr hne
        simp only [hp]
        exact ih p (by omega) (by omega)
  exact hwalk _ r hr hr

end Scopes

namespace Eval

/-- The statements of an import keep names bound if each of them does. -/
theorem keeps_runImported {self : Work → Eval Value}
    (h : ∀ s (m : Machine), m.scopes.Keeps (ended (self (.statement s) m)).scopes) (scope : ScopeRef) (height : Nat)
    (ss : List Statement) (last : Value) (m : Machine) :
    m.scopes.Keeps (ended (runImported self scope height last ss m)).scopes := by
  induction ss generalizing last m with
  | nil => exact .refl _
  | cons s ss ih =>
    have hfirst := h s m
    rw [runImported_cons_apply]
    revert hfirst
    match self (.statement s) m with
    | .ok v m' => exact fun hfirst => hfirst.trans (ih v m')
    | .error (.raised _) m' =>
      intro hfirst
      exact hfirst.trans
        (ih last { m' with current := scope, operands := m'.operands.unwindTo height })
    | .error (.returned _) m' | .error (.exited _) m' | .error (.awaiting _) m'
    | .error .exhausted m' => exact id

/-- However a computation ends, the names that were bound are bound to the same variables. -/
theorem Oblivious.keeps {α : Type} {x : Eval α} (h : Oblivious x) (m : Machine) :
    m.scopes.Keeps (ended (x m)).scopes := by
  induction h generalizing m with
  | pure a => exact .refl _
  | @bind _ _ x f _ _ ihx ihf =>
    have hfirst := ihx m
    cases hx : x m with
    | ok a m' =>
      rw [hx] at hfirst
      rw [bind_of_ok hx]
      exact hfirst.trans (ihf a m')
    | error e m' =>
      rw [hx] at hfirst
      rw [bind_of_error hx]
      exact hfirst
  | read _ _ ih => exact ih m m
  | change _ hquiet => exact hquiet.binds m
  | raise p pos =>
    rw [raise_apply]
    exact .refl _
  | stop _ => exact .refl _
  | @recover _ _ x f handled _ _ _ _ hrest ihx ihok ihhandled =>
    have hfirst := ihx m
    rw [observe_bind]
    cases hx : x m with
    | ok a m' =>
      rw [hx] at hfirst
      exact hfirst.trans (ihok a m')
    | error e m' =>
      rw [hx] at hfirst
      by_cases he : handled e
      · exact hfirst.trans (ihhandled e he m')
      · obtain ⟨g, hg, happ⟩ := hrest e he
        simp only [happ]
        exact hfirst.trans (hg.binds m')
  | @imported self _ file ss ih =>
    have hinside := keeps_runImported ih m.current m.operands.height ss .null { m with file }
    rw [runImport_apply]
    revert hinside
    cases runImported self m.current m.operands.height .null ss { m with file } <;> exact id

/-! ## Declaring a variable -/

/-- Declaring a variable binds its name in the current scope. -/
theorem findLocal?_of_declare {name : String} {type : Option ObjectRef} {pos : Position} {c : CellRef}
    {m m' : Machine} (hm : m.Sound) (h : declare name type pos m = .ok c m') :
    m'.scopes.findLocal? m.current name = some c := by
  unfold declare at h
  rw [get_bind] at h
  cases hlocal : m.scopes.findLocal? m.current name with
  | some _ =>
    rw [hlocal] at h
    cases h
  | none =>
    rw [hlocal] at h
    cases h
    exact Scopes.findLocal?_bind_self hm.current_lt name type

/-- A variable that was declared is bound in the scope where that happened. -/
theorem exists_findLocal?_of_runDeclaration {n : Nat} {d : Declaration} {v : Value} {m m' : Machine}
    (hm : m.Sound) (h : runDeclaration (run n) d m = .ok v m') :
    ∃ c, m'.scopes.findLocal? m.current d.name = some c := by
  unfold runDeclaration at h
  obtain ⟨type, m₁, htype, h⟩ := exists_of_bind_ok h
  obtain ⟨c, m₂, hdeclare, h⟩ := exists_of_bind_ok h
  have hend := (Kept.declaredType (run_trusted n) d m hm).ending
  rw [htype] at hend
  have hbound : m₂.scopes.findLocal? m.current d.name = some c := by
    rw [← hend.2.1]
    exact findLocal?_of_declare hend.1.is_sound hdeclare
  -- what is left to do is to evaluate the value and to put it into the variable
  have hkeeps : m₂.scopes.Keeps m'.scopes := by
    cases hvalue : d.value with
    | none =>
      rw [hvalue] at h
      cases h
      exact .refl _
    | some e =>
      rw [hvalue] at h
      have hrest : Oblivious (do
          let v ← run n (.expression e)
          checkDeclared v type d.pos
          settle d.name c v) :=
        (run_oblivious n _).bind fun v => (Oblivious.checkDeclared v type d.pos).bind fun _ =>
          .settle d.name c v
      have hended := hrest.keeps m₂
      rw [show (do
          let v ← run n (.expression e)
          checkDeclared v type d.pos
          settle d.name c v : Eval Value) m₂ = .ok v m' from h] at hended
      exact hended
  exact ⟨c, hkeeps _ _ _ hbound⟩

end Eval

namespace Session

open Eval (Oblivious ended)

/-! ## What the parts of a session keep -/

/-- What a session observes keeps names bound. -/
theorem keeps_of_observe {α : Type} {x : Eval α} (hx : Oblivious x) {m m' : Machine}
    {r : Except Interruption α} (h : observe x m = .ok r m') : m.scopes.Keeps m'.scopes := by
  have hkeeps := hx.keeps m
  rcases observe_cases h with ⟨a, -, hres⟩ | ⟨d, -, hres⟩ | ⟨pos, -, hres⟩
  · rw [hres] at hkeeps
    exact hkeeps
  · rw [hres] at hkeeps
    exact hkeeps
  · rw [hres] at hkeeps
    exact hkeeps

/-- A statement of a session leaves the scopes that running it leaves. -/
theorem scopes_of_execute {n : Nat} {s : Statement} {r : Except (List Diagnostic) Value} {m m' : Machine}
    (h : execute n s m = .ok r m') :
    m'.scopes = (ended (Eval.run n (.statement s) { m with raised := [] })).scopes := by
  -- a `return` that is refused changes the operands and the errors only
  have hrefuse : ∀ x : Eval Value, ∀ m₁,
      (ended (refuseReturn x m₁)).scopes = (ended (x m₁)).scopes := by
    intro x m₁
    rw [refuseReturn_apply]
    match x m₁ with
    | .ok _ _ | .error (.raised _) _ | .error (.returned _) _ | .error (.exited _) _
    | .error (.awaiting _) _ | .error .exhausted _ => rfl
  rw [execute_apply] at h
  rw [← hrefuse]
  cases hobserve : observe (refuseReturn (Eval.run n (.statement s))) { m with raised := [] } with
  | error stop m₁ =>
    rw [hobserve] at h
    cases h
  | ok outcome m₁ =>
    rw [hobserve] at h
    rcases observe_cases hobserve with ⟨w, rfl, hx⟩ | ⟨e, rfl, hx⟩ | ⟨pos, rfl, hx⟩
    all_goals
      rw [hx]
      cases h
      rfl

/-- A statement keeps names bound. -/
theorem keeps_of_execute {n : Nat} {s : Statement} {m m' : Machine}
    {r : Except (List Diagnostic) Value} (h : execute n s m = .ok r m') :
    m.scopes.Keeps m'.scopes := by
  rw [scopes_of_execute h]
  exact (Eval.run_oblivious n (.statement s)).keeps { m with raised := [] }

/-- Reading a program keeps names bound. -/
theorem keeps_of_readAndLoad {n : Nat} {file : String} {imports : List String} {source : String}
    {m m' : Machine} {r : Except (List Diagnostic) (List Statement)}
    (h : readAndLoad n file imports source m = .ok r m') : m.scopes.Keeps m'.scopes := by
  have hread := Eval.Routine.oblivious (m := default) (Eval.run_oblivious n)
    (.readAndLoad n file imports source)
  obtain ⟨outcome, m₁, hx, hr⟩ := exists_of_bind h
  have hkeeps := keeps_of_observe hread hx
  cases outcome <;> cases hr <;> exact hkeeps

/-- Showing a value keeps names bound. -/
theorem keeps_of_shown {n : Nat} {v : Value} {m m' : Machine} {r : Option String}
    (h : shown? n v m = .ok r m') : m.scopes.Keeps m'.scopes := by
  obtain ⟨outcome, m₁, hx, hr⟩ := exists_of_bind h
  have hstringify := Eval.Routine.oblivious (m := default) (Eval.run_oblivious n)
    (.stringify (v := v) False.elim .outside)
  have hkeeps := keeps_of_observe hstringify hx
  cases outcome <;> cases hr <;> exact hkeeps

/-- A value is never the outcome of a `return` that was refused. -/
theorem run_of_refuseReturn {x : Eval Value} {v : Value} {m m' : Machine}
    (h : refuseReturn x m = .ok v m') : x m = .ok v m' := by
  rw [refuseReturn_apply] at h
  match hx : x m with
  | .ok w m₁ =>
    rw [hx] at h
    exact h
  | .error (.returned _) m₁ | .error (.raised _) m₁ | .error (.exited _) m₁
  | .error (.awaiting _) m₁ | .error .exhausted m₁ =>
    rw [hx] at h
    cases h

/-- A declaration that ended with a value has bound its name in the scope where it was run. -/
theorem exists_findLocal?_of_execute {n : Nat} {d : Declaration} {v : Value} {m m' : Machine}
    (hm : m.Sound) (h : execute n (.declare d) m = .ok (.ok v) m') :
    ∃ c, m'.scopes.findLocal? m.current d.name = some c := by
  rw [execute_apply] at h
  cases hobserve : observe (refuseReturn (Eval.run n (.statement (.declare d))))
      { m with raised := [] } with
  | error stop m₁ =>
    rw [hobserve] at h
    cases h
  | ok outcome m₁ =>
    rw [hobserve] at h
    rcases observe_cases hobserve with ⟨w, rfl, hx⟩ | ⟨e, rfl, -⟩ | ⟨pos, rfl, -⟩
    · cases hraised : m₁.raised with
      | cons e es =>
        simp only [hraised] at h
        cases h
      | nil =>
        simp only [hraised] at h
        cases h
        cases n with
        | zero => cases hx
        | succ n =>
          have hrun : Eval.runDeclaration (Eval.run n) d { m with raised := [] } = .ok v m₁ :=
            run_of_refuseReturn hx
          obtain ⟨c, hc⟩ := Eval.exists_findLocal?_of_runDeclaration (sound_without_errors hm) hrun
          exact ⟨c, hc⟩
    · cases h
    · cases h

end Session

end ProtoScript
