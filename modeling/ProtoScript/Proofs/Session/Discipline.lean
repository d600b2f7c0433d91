import ProtoScript.Proofs.Session.Execute

/-!
# The discipline of operands and scopes

`Reachable m` says that a machine is met somewhere in a session: at its start, between two statements,
or when a piece of work begins or ends inside a statement, at any depth.  All such machines are sound.
So what evaluations promise holds of all evaluations that ever take place: the operands are balanced
however an evaluation ends, the current scope always stands in the root scope, and a statement of a
session starts with a clean machine whatever the statements before it did.
-/

namespace ProtoScript

/-- The machine with which a session starts: some native functions are defined in the root scope. -/
def Machine.fresh (file : String) (host : Host) (natives : List Native) : Machine :=
  natives.foldl Machine.defineNative (Machine.initial file host)

/-- The machines that are met in sessions. -/
inductive Reachable : Machine → Prop where
  /-- A session starts. -/
  | fresh (file : String) (host : Host) (natives : List Native) :
    Reachable (Machine.fresh file host natives)
  /-- The errors of the statement before are dropped. -/
  | cleared {m : Machine} (h : Reachable m) : Reachable { m with raised := [] }
  /-- A piece of work begins inside another one. -/
  | inside {m m₁ : Machine} {n : Nat} {w w₁ : Work} (h : Reachable m)
    (hw : Eval.Uses n w m fun w' m' => w' = w₁ ∧ m' = m₁) : Reachable m₁
  /-- A piece of work ends with a value. -/
  | evaluated {m m' : Machine} {n : Nat} {w : Work} {v : Value} (h : Reachable m)
    (hw : Eval.run n w m = .ok v m') : Reachable m'
  /-- A piece of work ends with an error. -/
  | raised {m m' : Machine} {n : Nat} {w : Work} {d : Diagnostic} (h : Reachable m)
    (hw : Eval.run n w m = .error (.raised d) m') : Reachable m'
  /-- A piece of work ends with a `return`. -/
  | returned {m m' : Machine} {n : Nat} {w : Work} {pos : Position} (h : Reachable m)
    (hw : Eval.run n w m = .error (.returned pos) m') : Reachable m'
  /-- A statement of the session comes to its end. -/
  | executed {m m' : Machine} {n : Nat} {s : Statement} {r : Except (List Diagnostic) Value}
    (h : Reachable m) (hs : Session.execute n s m = .ok r m') : Reachable m'
  /-- A program is read and loaded. -/
  | loaded {m m' : Machine} {n : Nat} {file : String} {imports : List String} {source : String}
    {r : Except (List Diagnostic) (List Statement)} (h : Reachable m)
    (hs : Session.readAndLoad n file imports source m = .ok r m') : Reachable m'
  /-- A value is shown. -/
  | shown {m m' : Machine} {n : Nat} {v : Value} {r : Option String} (h : Reachable m)
    (hs : Session.shown? n v m = .ok r m') : Reachable m'

/-! ## Reachable machines are sound -/

/-- Defining native functions changes nothing but the bindings of the root scope. -/
theorem Machine.alike_foldl_defineNative (natives : List Native) {m : Machine}
    (hroot : m.current = Scopes.root) : m.Alike (natives.foldl Machine.defineNative m) := by
  induction natives generalizing m with
  | nil => exact .refl m
  | cons n natives ih =>
    have hrest := ih (show (m.defineNative n).current = Scopes.root from hroot)
    obtain ⟨hsize, hparent⟩ := Scopes.define_same m.scopes n.name (.native n)
    have hbinds : m.scopes.BindsOnly m.current (m.defineNative n).scopes := by
      rw [hroot]
      exact Scopes.bindsOnly_define m.scopes n.name (.native n)
    exact ⟨hrest.size_eq.trans hsize, fun r => (hrest.parent?_eq r).trans (hparent r),
      hrest.current_eq, hrest.operands_eq, hrest.raised_eq, hrest.file_eq,
      hbinds.trans hsize.ge hrest.bindsOnly (.inl rfl), hrest.lengthened⟩

/-- The machine before any native function is defined is sound. -/
theorem Machine.initial_sound (file : String) (host : Host) :
    (Machine.initial file host).Sound := by
  have hnested := coreScopes_nested
  unfold Machine.initial
  -- nothing about the names that are defined there is needed
  generalize coreScopes = scopes at hnested ⊢
  refine ⟨hnested, hnested.root_lt, ?_⟩
  intro d hd
  cases hd

/-- A new machine is sound. -/
theorem Machine.fresh_sound (file : String) (host : Host) (natives : List Native) :
    (Machine.fresh file host natives).Sound :=
  (Machine.alike_foldl_defineNative natives rfl).is_sound (Machine.initial_sound file host)

namespace Session

/-- Reading a program leaves a sound machine. -/
theorem sound_of_readAndLoad {n : Nat} {file : String} {imports : List String} {source : String}
    {m m' : Machine} {r : Except (List Diagnostic) (List Statement)} (hm : m.Sound)
    (h : readAndLoad n file imports source m = .ok r m') : m'.Sound := by
  have hkept := Eval.Routine.kept (m := default) (Eval.run_trusted n)
    (.readAndLoad n file imports source)
  obtain ⟨outcome, m₁, hx, hr⟩ := exists_of_bind h
  have hm₁ := sound_of_observe hkept hm hx
  cases outcome <;> cases hr <;> exact hm₁

/-- Showing a value leaves a sound machine. -/
theorem sound_of_shown {n : Nat} {v : Value} {m m' : Machine} {r : Option String} (hm : m.Sound)
    (h : shown? n v m = .ok r m') : m'.Sound := by
  obtain ⟨outcome, m₁, hx, hr⟩ := exists_of_bind h
  have hm₁ := sound_of_observe (Eval.Kept.stringify (Eval.run_trusted n) v .outside) hm hx
  cases outcome <;> cases hr <;> exact hm₁

end Session

/-- Every machine that is met in a session is sound. -/
theorem Reachable.is_sound {m : Machine} (h : Reachable m) : m.Sound := by
  induction h with
  | fresh file host natives => exact Machine.fresh_sound file host natives
  | cleared _ ih => exact Session.sound_without_errors ih
  | inside _ hw ih =>
    obtain ⟨_, _, ⟨-, rfl⟩, hsound⟩ := hw.exists_sound ih
    exact hsound
  | @evaluated m m' n w _ _ hw ih =>
    have hend := (Eval.run_trusted n).ending w m ih
    rw [hw] at hend
    exact hend.1.is_sound
  | @raised m m' n w _ _ hw ih =>
    have hend := (Eval.run_trusted n).ending w m ih
    rw [hw] at hend
    exact hend.1.is_sound
  | @returned m m' n w _ _ hw ih =>
    have hend := (Eval.run_trusted n).ending w m ih
    rw [hw] at hend
    exact hend.1.is_sound
  | executed _ hs ih => exact (Session.execute_tidied ih hs).1.is_sound
  | loaded _ hs ih => exact Session.sound_of_readAndLoad ih hs
  | shown _ hs ih => exact Session.sound_of_shown ih hs

/-- The errors that statements of a session report are genuine. -/
theorem Reachable.genuine_of_execute {m m' : Machine} (h : Reachable m) {n : Nat} {s : Statement}
    {ds : List Diagnostic} (hs : Session.execute n s m = .ok (.error ds) m') :
    ∀ d ∈ ds, d.Genuine :=
  (Session.execute_tidied h.is_sound hs).2 ds rfl

/-- An error that stops a piece of work is genuine. -/
theorem Reachable.genuine_of_run {m m' : Machine} (h : Reachable m) {n : Nat} {w : Work}
    {d : Diagnostic} (hw : Eval.run n w m = .error (.raised d) m') : d.Genuine := by
  have hend := (Eval.run_trusted n).ending w m h.is_sound
  rw [hw] at hend
  obtain ⟨hf, -, hd⟩ := hend
  exact hf.is_sound.genuine d hd

/-! ## Procedures -/

namespace Eval

/-- The machine on which a procedure is entered: its arguments are on the operand stack. -/
def supplied (m : Machine) (values : List Value) : Machine :=
  { m with operands := m.operands.pushAll values }

/-- From a sound machine, a procedure whose arguments were checked is activated, entered and left as
promised. -/
theorem procedure_ending {n : Nat} {p : Procedure} {values : List Value} {pos : Position}
    {m m₁ : Machine} {types : List (Option ObjectRef)} (hm : m.Sound)
    (haccepts : p.accepts values.length = true)
    (hcheck : checkArguments (run n) p values pos m = .ok types m₁) :
    ActivationEnding m₁.operands (opened (supplied m₁ values))
        (activation (run n) p values.length types pos (opened (supplied m₁ values))) ∧
      CallEnding m₁.operands (supplied m₁ values)
        (enter (run n) p values.length types m₁.operands.height pos (supplied m₁ values)) := by
  have hend := (Kept.checkArguments (run_trusted n) p values pos m hm).ending
  rw [hcheck] at hend
  have hm₁ := hend.1.is_sound
  have hlen := length_of_checkArguments hcheck
  have hsupplied : (supplied m₁ values).Sound := ⟨hm₁.nested, hm₁.current_lt, hm₁.genuine⟩
  have hopened := (follows_opened hsupplied).is_sound
  exact ⟨(activation_ending (run_trusted n) pos haccepts hlen hopened rfl).2,
    (enter_ending (run_trusted n) pos haccepts hlen hsupplied rfl).2⟩

end Eval

/-! ## The discipline of operands -/

/-- Whatever is evaluated from a machine of a session, the operands are balanced.  A value or an error
leaves the very same operands; a `return` leaves one more, the value of the expression that was
returned.  So operands never run out, after a call as many of them are left as before it, and after an
error in a procedure nothing but what was pushed for it is dropped. -/
theorem operands_balanced {m : Machine} (hm : Reachable m) (n : Nat) :
    (∀ w v m', Eval.run n w m = .ok v m' → m'.operands = m.operands) ∧
    (∀ w d m', Eval.run n w m = .error (.raised d) m' →
      m'.operands = m.operands ∧ d.message ≠ "Operand stack underflow") ∧
    (∀ w pos m', Eval.run n w m = .error (.returned pos) m' →
      ∃ v, m'.operands = m.operands.push v ∧ Eval.Returns n w m pos v) ∧
    (∀ d ∈ m.raised, d.message ≠ "Operand stack underflow") ∧
    (∀ s ds m', Session.execute n s m = .ok (.error ds) m' →
      ∀ d ∈ ds, d.message ≠ "Operand stack underflow") ∧
    ∀ p values types pos m₁, p.accepts values.length = true →
      Eval.checkArguments (Eval.run n) p values pos m = .ok types m₁ →
      (∀ v m', Eval.enter (Eval.run n) p values.length types m₁.operands.height pos
          (Eval.supplied m₁ values) = .ok v m' →
        m'.operands.height = m₁.operands.height) ∧
      ∀ d m', Eval.activation (Eval.run n) p values.length types pos
          (Eval.opened (Eval.supplied m₁ values)) = .error (.raised d) m' →
        (∃ vs, m'.operands = m₁.operands.pushAll vs) ∧
          m'.operands.unwindTo m₁.operands.height = m₁.operands := by
  have hwording : ∀ {d : Diagnostic}, d.Genuine → d.message ≠ "Operand stack underflow" := by
    rintro d ⟨p, file, pos, hp, rfl⟩
    exact (Problem.message_ne_internal hp).1
  have hend := fun w => (Eval.run_trusted n).ending w m hm.is_sound
  refine ⟨?_, ?_, ?_, ?_, ?_, ?_⟩
  · intro w v m' hw
    have h := hend w
    rw [hw] at h
    exact h.2.2
  · intro w d m' hw
    have h := hend w
    rw [hw] at h
    exact ⟨h.2.1, hwording (hm.genuine_of_run hw)⟩
  · intro w pos m' hw
    exact Eval.returns_of_run hm.is_sound hw
  · intro d hd
    exact hwording (hm.is_sound.genuine d hd)
  · intro s ds m' hs d hd
    exact hwording (hm.genuine_of_execute hs d hd)
  · intro p values types pos m₁ haccepts hcheck
    obtain ⟨hactivation, henter⟩ := Eval.procedure_ending hm.is_sound haccepts hcheck
    refine ⟨?_, ?_⟩
    · intro v m' hv
      rw [hv] at henter
      exact congrArg Operands.height henter.2.2
    · intro d m' hd
      rw [hd] at hactivation
      obtain ⟨-, ⟨vs, hvs⟩, -⟩ := hactivation
      refine ⟨⟨vs, hvs⟩, ?_⟩
      rw [hvs, Operands.unwindTo_pushAll]

/-- A new machine without native functions, whose host answers nothing. -/
def Machine.bare : Machine := Machine.fresh "main" (.replayed []) []

/-- The statement `return 7;`. -/
def Statement.returnSeven : Statement := .returnWith (.literal (.int 7) ⟨1, 8⟩) ⟨1, 1⟩

/-- The procedure `func (x) { return 7; }`. -/
def Procedure.seven : Procedure :=
  ⟨[⟨"x", none, ⟨1, 7⟩⟩], none, ⟨[.returnSeven], ⟨1, 10⟩⟩, ⟨1, 1⟩, default⟩

set_option maxRecDepth 4000 in
/-- On a new machine, `return 7;` leaves one operand, and the procedure that consists of it none. -/
theorem operands_balanced_seven :
    (∃ m', Eval.run 2 (.statement .returnSeven) .bare = .error (.returned ⟨1, 1⟩) m' ∧
      ∃ v, m'.operands = Operands.empty.push v ∧
        Eval.Returns 2 (.statement .returnSeven) .bare ⟨1, 1⟩ v) ∧
    ∃ v m', Eval.enter (Eval.run 3) .seven 1 [none] 0 ⟨1, 1⟩
        (Eval.supplied .bare [.int 3]) = .ok v m' ∧ m'.operands.height = 0 := by
  have hbare : Reachable .bare := .fresh "main" (.replayed []) []
  obtain ⟨-, -, hreturned, -⟩ := operands_balanced hbare 2
  obtain ⟨-, -, -, -, -, hprocedure⟩ := operands_balanced hbare 3
  refine ⟨⟨_, rfl, hreturned _ _ _ rfl⟩, _, _, rfl, ?_⟩
  exact (hprocedure .seven [.int 3] [none] ⟨1, 1⟩ .bare rfl rfl).1 _ _ rfl

/-! ## The discipline of scopes -/

/-- The machines between the statements of a session, from a given one on. -/
inductive Session.Executions (m : Machine) : Machine → Prop where
  | none : Executions m m
  | next {m₁ m₂ : Machine} {n : Nat} {s : Statement} {r : Except (List Diagnostic) Value}
    (h : Executions m m₁) (hs : execute n s m₁ = .ok r m₂) : Executions m m₂

/-- Between the statements of a session, all machines are as clean as a new one. -/
theorem Session.Executions.clean {file : String} {host : Host} {natives : List Native} {m : Machine}
    (h : Executions (Machine.fresh file host natives) m) :
    m.Sound ∧ m.current = Scopes.root ∧ m.operands = .empty ∧ m.file = file ∧ m.raised = [] := by
  induction h with
  | none =>
    have halike := Machine.alike_foldl_defineNative natives (m := Machine.initial file host) rfl
    exact ⟨Machine.fresh_sound file host natives, halike.current_eq, halike.operands_eq,
      halike.file_eq, halike.raised_eq⟩
  | next _ hs ih =>
    obtain ⟨hsound, hc, ho, hfile, -⟩ := ih
    have htidy := (execute_tidied hsound hs).1
    refine ⟨htidy.is_sound, ?_, htidy.operands_eq.trans ho, htidy.file_eq.trans hfile,
      htidy.raised_eq⟩
    rcases htidy.current with h | h
    · exact h.trans hc
    · exact h

/-- Every statement of a session starts clean: in the root scope, without operands and errors, and with
errors attributed to the file of the session.  While it runs, the current scope stands in the root
scope; evaluations that end with a value stay in their scope, and those that end with a `return` are
left in a scope inside it, so that the scopes inside a procedure can be closed down to its own one.
The root scope is never closed. -/
theorem statements_start_clean (file : String) (host : Host) (natives : List Native) :
    (∀ m, Session.Executions (Machine.fresh file host natives) m →
      m.current = Scopes.root ∧ m.operands = .empty ∧ m.file = file ∧ m.raised = []) ∧
    ∀ m, Reachable m →
      m.scopes.Within m.current Scopes.root ∧
      (∀ d ∈ m.raised, d.message ≠ "Cannot close the global scope") ∧
      ∀ n,
        (∀ w v m', Eval.run n w m = .ok v m' → m'.current = m.current) ∧
        (∀ w d m', Eval.run n w m = .error (.raised d) m' →
          d.message ≠ "Cannot close the global scope") ∧
        (∀ w pos m', Eval.run n w m = .error (.returned pos) m' →
          m'.scopes.Within m'.current m.current) ∧
        (∀ s ds m', Session.execute n s m = .ok (.error ds) m' →
          ∀ d ∈ ds, d.message ≠ "Cannot close the global scope") ∧
        ∀ p values types pos m₁, p.accepts values.length = true →
          Eval.checkArguments (Eval.run n) p values pos m = .ok types m₁ →
          ∀ pos' m', Eval.activation (Eval.run n) p values.length types pos
              (Eval.opened (Eval.supplied m₁ values)) = .error (.returned pos') m' →
            Eval.closeUntil (Eval.opened (Eval.supplied m₁ values)).current pos
                (m'.current.index + 1) m' =
              .ok () { m' with current := (Eval.opened (Eval.supplied m₁ values)).current } := by
  have hwording : ∀ {d : Diagnostic}, d.Genuine → d.message ≠ "Cannot close the global scope" := by
    rintro d ⟨p, file, pos, hp, rfl⟩
    exact (Problem.message_ne_internal hp).2
  refine ⟨fun m h => h.clean.2, ?_⟩
  intro m hm
  have hsound := hm.is_sound
  refine ⟨hsound.nested.within_root hsound.current_lt, fun d hd => hwording (hsound.genuine d hd), ?_⟩
  intro n
  have hend := fun w => (Eval.run_trusted n).ending w m hsound
  refine ⟨?_, ?_, ?_, ?_, ?_⟩
  · intro w v m' hw
    have h := hend w
    rw [hw] at h
    exact h.2.1
  · intro w d m' hw
    exact hwording (hm.genuine_of_run hw)
  · intro w pos m' hw
    have h := hend w
    rw [hw] at h
    exact h.2.1
  · intro s ds m' hs d hd
    exact hwording (hm.genuine_of_execute hs d hd)
  · intro p values types pos m₁ haccepts hcheck pos' m' hret
    obtain ⟨hactivation, -⟩ := Eval.procedure_ending hsound haccepts hcheck
    rw [hret] at hactivation
    obtain ⟨hf, hwithin, -⟩ := hactivation
    exact Eval.closeUntil_of_within pos hf.is_sound hwithin (Nat.lt_succ_self _)

set_option maxRecDepth 4000 in
/-- A `return` outside of procedures leaves a clean machine, and so does the procedure around it. -/
theorem statements_start_clean_seven :
    (∃ ds m', Session.execute 2 .returnSeven .bare = .ok (.error ds) m' ∧
      m'.current = Scopes.root ∧ m'.operands = .empty ∧ m'.file = "main" ∧ m'.raised = []) ∧
    ∃ pos m', Eval.activation (Eval.run 3) .seven 1 [none] ⟨1, 1⟩
        (Eval.opened (Eval.supplied .bare [.int 3])) = .error (.returned pos) m' ∧
      Eval.closeUntil (Eval.opened (Eval.supplied .bare [.int 3])).current ⟨1, 1⟩
          (m'.current.index + 1) m' =
        .ok () { m' with current := (Eval.opened (Eval.supplied .bare [.int 3])).current } := by
  obtain ⟨hclean, hreachable⟩ := statements_start_clean "main" (.replayed []) []
  obtain ⟨-, -, hrun⟩ := hreachable .bare (.fresh "main" (.replayed []) [])
  obtain ⟨-, -, -, -, hclose⟩ := hrun 3
  obtain ⟨ds, m', hs⟩ : ∃ ds m', Session.execute 2 .returnSeven .bare = .ok (.error ds) m' :=
    ⟨_, _, rfl⟩
  refine ⟨⟨ds, m', hs, hclean m' (.next .none hs)⟩, _, _, rfl, ?_⟩
  exact hclose .seven [.int 3] [none] ⟨1, 1⟩ .bare rfl rfl _ _ rfl

end ProtoScript
