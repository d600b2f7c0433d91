import ProtoScript.Proofs.Recording.Phrase
import ProtoScript.Proofs.Steady.Phrase

/-!
# What is raised while a computation runs

`Traces catching x m t` says which problems the computation `x` raises when it is started on the machine
`m`, in which order, and inside of which imports: `t` lists them.  It is read off the way in which the
computation is built, and does not mention the errors that the machine records.  Outside of imports, an
error ends a computation and is handed on; only the statements of an import go on after one, and these
are the computations that are `catching`.

Every oblivious computation has such a trace.  What is recorded while it runs is its trace, each problem
attributed to the file of the innermost import around it; if it ends with an error, that is the last
one of the trace; and if no import was run, there is no other.
-/

namespace ProtoScript

/-- Something that happens while a program runs: a problem is raised, or an import is run, with all that
happens inside it. -/
inductive Occurrence where
  | problem (p : Problem) (pos : Position)
  | imported (file : String) (inside : List Occurrence)

namespace Occurrence

mutual

/-- The diagnostics for something that happens in a file. -/
def diagnostics (file : String) : Occurrence → List Diagnostic
  | problem p pos => [p.diagnostic file pos]
  | imported file inside => allDiagnostics file inside

/-- The diagnostics for several things that happen in a file. -/
def allDiagnostics (file : String) : List Occurrence → List Diagnostic
  | [] => []
  | o :: os => o.diagnostics file ++ allDiagnostics file os

end

/-- The diagnostics of two traces, one after the other. -/
theorem allDiagnostics_append (file : String) (os others : List Occurrence) :
    allDiagnostics file (os ++ others) = allDiagnostics file os ++ allDiagnostics file others := by
  induction os with
  | nil => rfl
  | cons o os ih => simp only [List.cons_append, allDiagnostics, ih, List.append_assoc]

/-- No import is among the things that happened. -/
def WithoutImports (os : List Occurrence) : Prop :=
  ∀ file inside, imported file inside ∉ os

/-- The parts of a trace without imports have none either. -/
theorem WithoutImports.of_append {os others : List Occurrence} (h : WithoutImports (os ++ others)) :
    WithoutImports os ∧ WithoutImports others :=
  ⟨fun file inside hmem => h file inside (List.mem_append_left _ hmem),
    fun file inside hmem => h file inside (List.mem_append_right _ hmem)⟩

/-- Without imports, everything that happens is a problem. -/
theorem WithoutImports.length_allDiagnostics (file : String) {os : List Occurrence}
    (h : WithoutImports os) : (allDiagnostics file os).length = os.length := by
  induction os with
  | nil => rfl
  | cons o os ih =>
    have happend : WithoutImports ([o] ++ os) := h
    obtain ⟨ho, hos⟩ := happend.of_append
    cases o with
    | problem p pos => simp [allDiagnostics, diagnostics, ih hos]
    | imported other inside => exact absurd (List.mem_singleton_self _) (ho other inside)

end Occurrence

open Occurrence (allDiagnostics allDiagnostics_append WithoutImports)

namespace Eval

/-- What a computation raises when it is started on a machine.  If it is `catching`, it may go on after
an error. -/
inductive Traces : (catching : Bool) → {α : Type} → Eval α → Machine → List Occurrence → Prop where
  | pure {c : Bool} {α : Type} (a : α) (m : Machine) : Traces c (Pure.pure a) m []
  /-- The first step ends with a value, which is handed to the second one. -/
  | bind {c : Bool} {α β : Type} {x : Eval α} {f : α → Eval β} {m m' : Machine} {a : α}
    {t t' : List Occurrence} (hx : Traces c x m t) (h : x m = .ok a m') (hf : Traces c (f a) m' t') :
    Traces c (x >>= f) m (t ++ t')
  /-- The first step is interrupted, and the second one is not done. -/
  | cut {c : Bool} {α β : Type} {x : Eval α} {f : α → Eval β} {m m' : Machine} {e : Interruption}
    {t : List Occurrence} (hx : Traces c x m t) (h : x m = .error e m') : Traces c (x >>= f) m t
  | read {c : Bool} {α : Type} {f : Machine → Eval α} {m : Machine} {t : List Occurrence}
    (hf : Traces c (f m) m t) : Traces c (MonadState.get >>= f) m t
  | change {c : Bool} {α : Type} {f : Machine → α × Machine} (hf : Quiet fun m => (f m).2)
    (m : Machine) : Traces c (modifyGet f) m []
  | raise {c : Bool} {α : Type} (p : Problem) (pos : Position) (m : Machine) :
    Traces c (Eval.raise p pos : Eval α) m [.problem p pos]
  | stop {c : Bool} {α : Type} {e : Interruption} (he : ∀ d, e ≠ .raised d) (m : Machine) :
    Traces c (throw e : Eval α) m []
  /-- What is observed to end with a value is gone on with. -/
  | observed {c : Bool} {α β : Type} {x : Eval α} {f : Except Interruption α → Eval β}
    {m m' : Machine} {a : α} {t t' : List Occurrence} (hx : Traces c x m t) (h : x m = .ok a m')
    (hf : Traces c (f (.ok a)) m' t') : Traces c (observe x >>= f) m (t ++ t')
  /-- An interruption is handled; an error is handled only by what is catching. -/
  | handled {c : Bool} {α β : Type} {x : Eval α} {f : Except Interruption α → Eval β}
    {m m' : Machine} {e : Interruption} {t t' : List Occurrence} (hx : Traces c x m t)
    (h : x m = .error e m') (he : c = true ∨ ∀ d, e ≠ .raised d)
    (hf : Traces c (f (.error e)) m' t') : Traces c (observe x >>= f) m (t ++ t')
  /-- An interruption is handed on after a quiet change. -/
  | handedOn {c : Bool} {α β : Type} {x : Eval α} {f : Except Interruption α → Eval β}
    {m m' : Machine} {e : Interruption} {g : Machine → Machine} {t : List Occurrence}
    (hx : Traces c x m t) (h : x m = .error e m') (hg : Quiet g)
    (hf : f (.error e) m' = .error e (g m')) : Traces c (observe x >>= f) m t
  /-- The statements of an import catch errors, and stand in the file of the import. -/
  | imported {c : Bool} {self : Work → Eval Value} {file : String} {ss : List Statement}
    {m : Machine} {t : List Occurrence}
    (h : Traces true (runImported self m.current m.operands.height .null ss) { m with file } t) :
    Traces c (runImport self file ss) m [.imported file t]

/-! ## Every computation has a trace -/

/-- The statements of an import have a trace if each of them has one. -/
theorem exists_traces_runImported {self : Work → Eval Value}
    (h : ∀ s m, ∃ t, Traces true (self (.statement s)) m t) (scope : ScopeRef) (height : Nat)
    (ss : List Statement) (last : Value) (m : Machine) :
    ∃ t, Traces true (runImported self scope height last ss) m t := by
  induction ss generalizing last m with
  | nil => exact ⟨[], .pure last m⟩
  | cons s ss ih =>
    obtain ⟨t, ht⟩ := h s m
    cases hs : self (.statement s) m with
    | ok v m' =>
      obtain ⟨t', ht'⟩ := ih v m'
      exact ⟨t ++ t', .observed ht hs ht'⟩
    | error e m' =>
      cases e with
      | raised d =>
        obtain ⟨t', ht'⟩ := ih last { m' with current := scope, operands := m'.operands.unwindTo height }
        have hback : Traces true (modify fun m => { m with current := scope } : Eval Unit) m' [] :=
          .change (.of_scopes fun _ _ => rfl) m'
        have hunwind : Traces true (unwindTo height) { m' with current := scope } [] :=
          .change (.of_scopes fun _ _ => rfl) _
        exact ⟨t ++ ([] ++ ([] ++ t')), .handled ht hs (.inl rfl) (.bind hback rfl (.bind hunwind rfl ht'))⟩
      | returned _ | exited _ | awaiting _ | exhausted =>
        exact ⟨t, .handedOn (g := id) ht hs (.of_scopes fun _ _ => rfl) rfl⟩

/-- Every oblivious computation has a trace, from whichever machine it is started. -/
theorem Oblivious.exists_traces {α : Type} {x : Eval α} (h : Oblivious x) (c : Bool) (m : Machine) :
    ∃ t, Traces c x m t := by
  induction h generalizing c m with
  | pure a => exact ⟨[], .pure a m⟩
  | @bind _ _ x f _ _ ihx ihf =>
    obtain ⟨t, ht⟩ := ihx c m
    cases hx : x m with
    | ok a m' =>
      obtain ⟨t', ht'⟩ := ihf a c m'
      exact ⟨t ++ t', .bind ht hx ht'⟩
    | error e m' => exact ⟨t, .cut ht hx⟩
  | read _ _ ih =>
    obtain ⟨t, ht⟩ := ih m c m
    exact ⟨t, .read ht⟩
  | change _ hquiet => exact ⟨[], .change hquiet m⟩
  | raise p pos => exact ⟨_, .raise p pos m⟩
  | stop he => exact ⟨[], .stop he m⟩
  | @recover _ _ x f handled hraised _ _ _ hrest ihx ihok ihhandled =>
    obtain ⟨t, ht⟩ := ihx c m
    cases hx : x m with
    | ok a m' =>
      obtain ⟨t', ht'⟩ := ihok a c m'
      exact ⟨t ++ t', .observed ht hx ht'⟩
    | error e m' =>
      by_cases he : handled e
      · obtain ⟨t', ht'⟩ := ihhandled e he c m'
        refine ⟨t ++ t', .handled ht hx (.inr ?_) ht'⟩
        rintro d rfl
        exact hraised d he
      · obtain ⟨g, hg, happ⟩ := hrest e he
        exact ⟨t, .handedOn ht hx hg (happ m')⟩
  | imported _ file ss ih =>
    obtain ⟨t, ht⟩ := exists_traces_runImported (fun s m => ih s true m) m.current m.operands.height ss
      .null { m with file }
    exact ⟨_, .imported ht⟩

/-! ## What is recorded is the trace -/

/-- The machine on which further errors were recorded; the active file is the same. -/
structure Records (m : Machine) (ds : List Diagnostic) (m' : Machine) : Prop where
  raised_eq : m'.raised = m.raised ++ ds
  file_eq : m'.file = m.file

/-- A quiet change records nothing. -/
theorem Records.of_quiet {f : Machine → Machine} (hf : Quiet f) (m : Machine) : Records m [] (f m) :=
  ⟨by rw [hf.raised_eq, List.append_nil], hf.file_eq m⟩

/-- What happens in the same file one after the other is recorded one after the other. -/
theorem Records.append {m m₁ m₂ : Machine} {t t' : List Occurrence}
    (h : Records m (allDiagnostics m.file t) m₁) (h' : Records m₁ (allDiagnostics m₁.file t') m₂) :
    Records m (allDiagnostics m.file (t ++ t')) m₂ where
  raised_eq := by
    rw [h'.raised_eq, h.raised_eq, h.file_eq, allDiagnostics_append, List.append_assoc]
  file_eq := h'.file_eq.trans h.file_eq

/-- The problems of a trace are recorded in its order, and the active file is the same afterwards. -/
theorem Traces.records {c : Bool} {α : Type} {x : Eval α} {m : Machine} {t : List Occurrence}
    (h : Traces c x m t) : Records m (allDiagnostics m.file t) (ended (x m)) := by
  induction h with
  | pure a m => exact ⟨(List.append_nil _).symm, rfl⟩
  | bind _ h _ ihx ihf =>
    rw [h] at ihx
    rw [bind_of_ok h]
    exact ihx.append ihf
  | cut _ h ihx =>
    rw [h] at ihx
    rw [bind_of_error h]
    exact ihx
  | read _ ih => exact ih
  | change hf m => exact .of_quiet hf m
  | raise p pos m => exact ⟨rfl, rfl⟩
  | stop _ m => exact ⟨(List.append_nil _).symm, rfl⟩
  | observed _ h _ ihx ihf =>
    rw [h] at ihx
    rw [observe_bind, h]
    exact ihx.append ihf
  | handled _ h _ _ ihx ihf =>
    rw [h] at ihx
    rw [observe_bind, h]
    exact ihx.append ihf
  | @handedOn _ _ _ x f m m' e g t _ h hg hf ihx =>
    have hquiet : Records m' (allDiagnostics m'.file []) (g m') := .of_quiet hg m'
    rw [h] at ihx
    simp only [observe_bind, h, hf]
    have happend := ihx.append hquiet
    rw [List.append_nil] at happend
    exact happend
  | @imported _ self file ss m t _ ih =>
    refine ⟨?_, ?_⟩
    · rw [runImport_apply]
      have hraised : (ended (runImported self m.current m.operands.height .null ss { m with file })).raised =
          m.raised ++ allDiagnostics file t := ih.raised_eq
      simp only [allDiagnostics, Occurrence.diagnostics, List.append_nil]
      rw [← hraised]
      cases runImported self m.current m.operands.height .null ss { m with file } <;> rfl
    · rw [runImport_apply]
      cases runImported self m.current m.operands.height .null ss { m with file } <;> rfl

/-! ## Errors end computations -/

/-- The statements of an import do not end with an error. -/
theorem runImported_ne_raised (self : Work → Eval Value) (scope : ScopeRef) (height : Nat)
    (ss : List Statement) (last : Value) (m : Machine) (d : Diagnostic) (m' : Machine) :
    runImported self scope height last ss m ≠ .error (.raised d) m' := by
  induction ss generalizing last m with
  | nil => exact nofun
  | cons s ss ih =>
    rw [runImported_cons_apply]
    match self (.statement s) m with
    | .ok v m₁ => exact ih v m₁
    | .error (.raised _) m₁ => exact ih last _
    | .error (.returned _) m₁ | .error (.exited _) m₁ | .error (.awaiting _) m₁
    | .error .exhausted m₁ => exact nofun

/-- An import never ends with an error: its statements recorded what they raised. -/
theorem runImport_ne_raised (self : Work → Eval Value) (file : String) (ss : List Statement)
    (m : Machine) (d : Diagnostic) (m' : Machine) :
    runImport self file ss m ≠ .error (.raised d) m' := by
  intro h
  rw [runImport_apply] at h
  cases hinside : runImported self m.current m.operands.height .null ss { m with file } with
  | ok v m₁ =>
    rw [hinside] at h
    cases h
  | error e m₁ =>
    rw [hinside] at h
    cases h
    exact runImported_ne_raised _ _ _ _ _ _ _ _ hinside

/-- What is raised last in the second of two steps is raised last in both. -/
theorem Records.getLast?_append {m m₁ : Machine} {t t' : List Occurrence} {d : Diagnostic}
    (h : Records m (allDiagnostics m.file t) m₁)
    (hlast : (allDiagnostics m₁.file t').getLast? = some d) :
    (allDiagnostics m.file (t ++ t')).getLast? = some d := by
  rw [h.file_eq] at hlast
  rw [allDiagnostics_append, List.getLast?_append, hlast]
  rfl

/-- A computation that ends with an error has raised it last. -/
theorem Traces.getLast? {c : Bool} {α : Type} {x : Eval α} {m m' : Machine} {t : List Occurrence}
    {d : Diagnostic} (h : Traces c x m t) (hx : x m = .error (.raised d) m') :
    (allDiagnostics m.file t).getLast? = some d := by
  induction h generalizing m' with
  | pure a m => cases hx
  | bind ht h _ _ ihf =>
    have hrecords := ht.records
    rw [h] at hrecords
    rw [bind_of_ok h] at hx
    exact hrecords.getLast?_append (ihf hx)
  | cut _ h ihx =>
    rw [bind_of_error h] at hx
    cases hx
    exact ihx h
  | read _ ih => exact ih hx
  | change hf m => cases hx
  | raise p pos m =>
    rw [raise_apply] at hx
    cases hx
    rfl
  | stop he m =>
    cases hx
    exact absurd rfl (he d)
  | observed ht h _ _ ihf =>
    have hrecords := ht.records
    rw [h] at hrecords
    rw [observe_bind, h] at hx
    exact hrecords.getLast?_append (ihf hx)
  | handled ht h _ _ _ ihf =>
    have hrecords := ht.records
    rw [h] at hrecords
    rw [observe_bind, h] at hx
    exact hrecords.getLast?_append (ihf hx)
  | handedOn _ h _ hf ihx =>
    simp only [observe_bind, h, hf] at hx
    cases hx
    exact ihx h
  | imported _ _ => exact absurd hx (runImport_ne_raised _ _ _ _ _ _)

/-- As long as no import is run, a computation raises nothing but the error that it ends with. -/
def Single {α : Type} (t : List Occurrence) : EStateM.Result Interruption Machine α → Prop
  | .error (.raised _) _ => t.length = 1
  | _ => t = []

/-- Whether a trace is that of one error does not depend on the machine or on the kind of value. -/
theorem Single.of_error {α β : Type} {t : List Occurrence} {e : Interruption} {m : Machine}
    (h : Single (α := α) t (.error e m)) (m' : Machine) : Single (α := β) t (.error e m') := by
  cases e <;> exact h

theorem single_error_iff {α : Type} {t : List Occurrence} {e : Interruption} {m : Machine}
    (he : ∀ d, e ≠ .raised d) : Single (α := α) t (.error e m) ↔ t = [] := by
  cases e with
  | raised d => exact absurd rfl (he d)
  | returned _ | exited _ | awaiting _ | exhausted => exact Iff.rfl

theorem Single.length_le {α : Type} {t : List Occurrence}
    {r : EStateM.Result Interruption Machine α} (h : Single t r) : t.length ≤ 1 := by
  match r with
  | .error (.raised _) _ => exact Nat.le_of_eq h
  | .ok _ _ | .error (.returned _) _ | .error (.exited _) _ | .error (.awaiting _) _
  | .error .exhausted _ =>
    have hnil : t = [] := h
    rw [hnil]
    exact Nat.zero_le 1

/-- What follows a computation that raised nothing raises what both raise. -/
theorem Single.append_of_nil {α : Type} {t t' : List Occurrence}
    {r : EStateM.Result Interruption Machine α} (ht : t = []) (h : Single t' r) :
    Single (t ++ t') r := by
  rw [ht]
  exact h

/-- A computation that is not catching ends with the first error that it raises outside of imports. -/
theorem Traces.is_single {α : Type} {c : Bool} {x : Eval α} {m : Machine} {t : List Occurrence}
    (h : Traces c x m t) (hc : c = false) (hfree : WithoutImports t) : Single t (x m) := by
  induction h with
  | pure a m => exact rfl
  | bind _ h _ ihx ihf =>
    have hfirst := ihx hc hfree.of_append.1
    rw [h] at hfirst
    rw [bind_of_ok h]
    exact .append_of_nil hfirst (ihf hc hfree.of_append.2)
  | cut _ h ihx =>
    have hfirst := ihx hc hfree
    rw [h] at hfirst
    rw [bind_of_error h]
    exact hfirst.of_error _
  | read _ ih => exact ih hc hfree
  | change hf m => exact rfl
  | raise p pos m => exact rfl
  | stop he m => exact (single_error_iff he).mpr rfl
  | observed _ h _ ihx ihf =>
    have hfirst := ihx hc hfree.of_append.1
    rw [h] at hfirst
    rw [observe_bind, h]
    exact .append_of_nil hfirst (ihf hc hfree.of_append.2)
  | handled _ h he _ ihx ihf =>
    -- what is not catching handles no errors, so nothing was raised yet
    have hother := he.resolve_left (by rw [hc]; exact nofun)
    have hfirst := ihx hc hfree.of_append.1
    rw [h, single_error_iff hother] at hfirst
    rw [observe_bind, h]
    exact .append_of_nil hfirst (ihf hc hfree.of_append.2)
  | handedOn _ h _ hf ihx =>
    have hfirst := ihx hc hfree
    rw [h] at hfirst
    simp only [observe_bind, h, hf]
    exact hfirst.of_error _
  | imported _ _ => exact absurd (List.mem_singleton_self _) (hfree _ _)

end Eval

end ProtoScript
