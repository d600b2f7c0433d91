import Mathlib.Data.List.Induction
import ProtoScript.Eval.Call
import ProtoScript.Proofs.Evaluation.Routine

/-!
# Procedure calls keep the promise

A call pushes its arguments, opens a scope, binds the parameters to the operands and runs the body;
that is the activation of the procedure.  Binding takes off exactly the operands that were pushed,
for the number of values was checked against the number of parameters before.  So the body starts with
the operands of the caller, and however it ends the call can restore them: without a `return` they
are as they were, with one there is the returned value on top, and after an error whatever is left of
the arguments stands above them.
-/

namespace ProtoScript

namespace Operands

/-- Pushing values and then one more. -/
theorem pushAll_concat (s : Operands) (vs : List Value) (v : Value) :
    s.pushAll (vs ++ [v]) = (s.pushAll vs).push v := by
  simp [pushAll]

/-- Pushing values in two portions. -/
theorem pushAll_append (s : Operands) (vs ws : List Value) :
    s.pushAll (vs ++ ws) = (s.pushAll vs).pushAll ws := by
  simp [pushAll]

end Operands

namespace Eval

variable {self other : Work → Eval Value}

/-! ## Checking the arguments -/

namespace Kept

/-- Checking arguments against fixed parameters keeps the promise. -/
theorem checkFixed (h : Trusted self other) (pos : Position) (ps : List Parameter)
    (vs : List Value) :
    Kept self (Eval.checkFixed self pos ps vs) (Eval.checkFixed other pos ps vs) := by
  induction ps generalizing vs with
  | nil => exact .pure []
  | cons p ps ih =>
    cases vs with
    | nil => exact .pure []
    | cons v vs =>
      unfold Eval.checkFixed
      cases p.type with
      | some e =>
        exact (evaluateType h e).bind fun _ => (typecheck _ _ pos).bind fun _ =>
          (ih vs).bind fun _ => .pure _
      | none => exact (ih vs).bind fun _ => .pure _

/-- Checking arguments against one type keeps the promise. -/
theorem checkAll (type : ObjectRef) (pos : Position) (vs : List Value) :
    Kept self (Eval.checkAll type pos vs) (Eval.checkAll type pos vs) := by
  induction vs with
  | nil => exact .pure ()
  | cons v vs ih => exact (typecheck v type pos).bind fun _ => ih

/-- Checking all arguments of a call keeps the promise. -/
theorem checkArguments (h : Trusted self other) (p : Procedure) (arguments : List Value)
    (pos : Position) :
    Kept self (Eval.checkArguments self p arguments pos)
      (Eval.checkArguments other p arguments pos) := by
  unfold Eval.checkArguments
  refine (checkFixed h pos p.fixed arguments).bind fun types => ?_
  dsimp only
  cases p.rest.bind (·.type) with
  | some e =>
    exact (evaluateType h e).bind fun _ => (checkAll _ pos _).bind fun _ => .pure types
  | none => exact .pure types

end Kept

/-- There is a type for each parameter that has a value. -/
theorem length_of_checkFixed {pos : Position} {ps : List Parameter} {vs : List Value}
    {m m' : Machine} {types : List (Option ObjectRef)}
    (h : checkFixed self pos ps vs m = .ok types m') :
    types.length = min ps.length vs.length := by
  induction ps generalizing vs m types with
  | nil =>
    cases h
    simp
  | cons p ps ih =>
    cases vs with
    | nil =>
      cases h
      simp
    | cons v vs =>
      have hrest : ∀ {t : Option ObjectRef} {m₁ : Machine},
          (do return t :: (← checkFixed self pos ps vs)) m₁ = EStateM.Result.ok types m' →
            types.length = min (ps.length + 1) (vs.length + 1) := by
        intro t m₁ h
        obtain ⟨ts, m₂, h₂, h₃⟩ := exists_of_bind_ok h
        cases h₃
        rw [List.length_cons, ih h₂, Nat.succ_min_succ]
      unfold checkFixed at h
      cases htype : p.type with
      | none =>
        rw [htype] at h
        exact hrest h
      | some e =>
        rw [htype] at h
        obtain ⟨type, m₁, -, h₁⟩ := exists_of_bind_ok h
        obtain ⟨_, m₂, -, h₂⟩ := exists_of_bind_ok h₁
        exact hrest h₂

/-- There is a type for each fixed parameter that has a value. -/
theorem length_of_checkArguments {p : Procedure} {arguments : List Value} {pos : Position}
    {m m' : Machine} {types : List (Option ObjectRef)}
    (h : checkArguments self p arguments pos m = .ok types m') :
    types.length = min p.fixed.length arguments.length := by
  unfold checkArguments at h
  obtain ⟨ts, m₁, h₁, h₂⟩ := exists_of_bind_ok h
  have hlen := length_of_checkFixed h₁
  cases hrest : p.rest.bind (·.type) with
  | none =>
    simp only [hrest] at h₂
    cases h₂
    exact hlen
  | some e =>
    simp only [hrest] at h₂
    obtain ⟨type, m₂, -, h₃⟩ := exists_of_bind_ok h₂
    obtain ⟨_, m₃, -, h₄⟩ := exists_of_bind_ok h₃
    cases h₄
    exact hlen

/-! ## Binding the parameters -/

/-- What binding parameters promises, where `s` is what stands below their operands: on success they
are all gone, and after an error only some of them are left. -/
def BindingEnding (s : Operands) (m : Machine) :
    EStateM.Result Interruption Machine Unit → Prop
  | .ok _ m' => m.Follows m' ∧ m'.current = m.current ∧ m'.operands = s
  | .error (.raised d) m' =>
    m.Follows m' ∧ (∃ vs, m'.operands = s.pushAll vs) ∧ d ∈ m'.raised
  | .error _ _ => False

/-- Binding may be preceded by steps that do not touch the scope. -/
theorem BindingEnding.trans {s : Operands} {m m₁ : Machine}
    {r : EStateM.Result Interruption Machine Unit} (hf : m.Follows m₁)
    (hc : m₁.current = m.current) (h : BindingEnding s m₁ r) : BindingEnding s m r := by
  match r, h with
  | .ok _ m₂, ⟨hf₂, hc₂, ho₂⟩ => exact ⟨hf.trans hc hf₂, hc₂.trans hc, ho₂⟩
  | .error (.raised _) m₂, ⟨hf₂, hv₂⟩ => exact ⟨hf.trans hc hf₂, hv₂⟩

/-- A declaration binds the name, or it raises an error and leaves the rest alone. -/
theorem declare_cases (name : String) (type : Option ObjectRef) (pos : Position) {m : Machine}
    (hm : m.Sound) :
    (∃ c m', declare name type pos m = .ok c m' ∧ m.Alike m') ∨
      ∃ d m', declare name type pos m = .error (.raised d) m' ∧ m.Follows m' ∧
        m'.operands = m.operands ∧ d ∈ m'.raised := by
  unfold declare
  rw [get_bind]
  cases m.scopes.findLocal? m.current name with
  | none =>
    exact .inl ⟨_, _, rfl, Scopes.bind_size _ _ _ _, Scopes.bind_parent? _ _ _ _,
      rfl, rfl, rfl, rfl, Scopes.bindsOnly_bind _ _ _ _, .refl _⟩
  | some c => exact .inr ⟨_, _, rfl, follows_raise hm rfl pos, rfl, mem_raise _ pos m⟩

/-- Popping as many operands as were pushed yields them in the order in which they were pushed. -/
theorem popOperands_of_pushAll (pos : Position) {s : Operands} {vs : List Value} {m : Machine}
    (h : m.operands = s.pushAll vs) (others : List Value) :
    popOperands pos vs.length others m = .ok (vs ++ others) { m with operands := s } := by
  induction vs using List.reverseRecOn generalizing m others with
  | nil =>
    have hs : m.operands = s := h
    subst hs
    rfl
  | append_singleton vs v ih =>
    rw [Operands.pushAll_concat] at h
    rw [List.length_append, List.length_singleton]
    unfold popOperands
    rw [bind_of_ok (popOperand_of_push h pos), ih rfl, List.append_assoc]
    rfl

/-- Binding fixed parameters takes off one operand for each of them. -/
theorem bindFixed_ending (pos : Position) {s : Operands}
    (entries : List (Parameter × Option ObjectRef)) {vs : List Value}
    (hlen : vs.length = entries.length) {m : Machine} (hm : m.Sound)
    (h : m.operands = s.pushAll vs) : BindingEnding s m (bindFixed pos entries m) := by
  induction entries generalizing vs m with
  | nil =>
    obtain rfl : vs = [] := List.eq_nil_of_length_eq_zero hlen
    exact ⟨.refl hm, rfl, h⟩
  | cons entry entries ih =>
    obtain ⟨p, type⟩ := entry
    -- the last value that was pushed belongs to the parameter that comes first here
    obtain ⟨ws, w, rfl⟩ : ∃ ws w, vs = ws ++ [w] := by
      rcases List.eq_nil_or_concat vs with rfl | ⟨ws, w, rfl⟩
      · cases hlen
      · exact ⟨ws, w, by simp⟩
    rw [Operands.pushAll_concat] at h
    have hpop : popOperand pos m = .ok w { m with operands := s.pushAll ws } :=
      popOperand_of_push h pos
    have hm₁ : ({ m with operands := s.pushAll ws } : Machine).Sound :=
      ⟨hm.nested, hm.current_lt, hm.genuine⟩
    unfold bindFixed
    rw [bind_of_ok hpop]
    rcases declare_cases p.name type p.pos hm₁ with ⟨c, m₂, hd, halike⟩ | ⟨d, m₂, hd, hfol, hops, hrec⟩
    · rw [bind_of_ok hd]
      have hput : putCell c w m₂ = .ok () { m₂ with scopes := m₂.scopes.put c w } := rfl
      rw [bind_of_ok hput]
      have halike₂ : ({ m with operands := s.pushAll ws } : Machine).Alike
          { m₂ with scopes := m₂.scopes.put c w } :=
        ⟨halike.size_eq, halike.parent?_eq, halike.current_eq, halike.operands_eq,
          halike.raised_eq, halike.file_eq, halike.bindsOnly, halike.lengthened⟩
      have hfol := (halike₂.follows hm₁).of_operands
      exact BindingEnding.trans hfol halike₂.current_eq
        (ih (by simpa using hlen) hfol.is_sound halike₂.operands_eq)
    · rw [bind_of_error hd]
      exact ⟨hfol.of_operands, ⟨ws, hops⟩, hrec⟩

/-- Binding all parameters of a procedure takes off exactly the operands that were pushed for it. -/
theorem bindParameters_ending {p : Procedure} {values : List Value}
    {types : List (Option ObjectRef)} (pos : Position) (haccepts : p.accepts values.length = true)
    (htypes : types.length = min p.fixed.length values.length) {s : Operands} {m : Machine}
    (hm : m.Sound) (h : m.operands = s.pushAll values) :
    BindingEnding s m (bindParameters p values.length types pos m) := by
  unfold Procedure.accepts at haccepts
  unfold bindParameters
  cases hrest : p.rest with
  | none =>
    simp only [hrest, Option.isSome_none, Bool.false_eq_true, if_false, beq_iff_eq] at haccepts
    have hlen : values.length = (p.fixed.zip types).reverse.length := by
      rw [List.length_reverse, List.length_zip]
      omega
    exact bindFixed_ending pos _ hlen hm h
  | some rest =>
    simp only [hrest, Option.isSome_some, if_true, decide_eq_true_eq] at haccepts
    -- the operands beyond the fixed parameters are on top
    have hsplit : m.operands =
        (s.pushAll (values.take p.fixed.length)).pushAll (values.drop p.fixed.length) := by
      rw [← Operands.pushAll_append, List.take_append_drop]
      exact h
    have hlen : (values.take p.fixed.length).length = (p.fixed.zip types).reverse.length := by
      rw [List.length_take, List.length_reverse, List.length_zip]
      omega
    have hpop := popOperands_of_pushAll pos hsplit []
    rw [List.length_drop] at hpop
    have hm₁ : ({ m with operands := s.pushAll (values.take p.fixed.length) } : Machine).Sound :=
      ⟨hm.nested, hm.current_lt, hm.genuine⟩
    dsimp only
    rw [bind_of_ok hpop]
    rcases declare_cases rest.name none rest.pos hm₁ with
      ⟨c, m₂, hd, halike⟩ | ⟨d, m₂, hd, hfol, hops, hrec⟩
    · rw [bind_of_ok hd]
      have halike₂ : ({ m with operands := s.pushAll (values.take p.fixed.length) } :
          Machine).Alike { m₂ with
            heap := (m₂.heap.addArray (values.drop p.fixed.length ++ []).toArray).2
            scopes := m₂.scopes.put c
              (.array (m₂.heap.addArray (values.drop p.fixed.length ++ []).toArray).1) } :=
        ⟨halike.size_eq, halike.parent?_eq, halike.current_eq, halike.operands_eq,
          halike.raised_eq, halike.file_eq, halike.bindsOnly,
          halike.lengthened.trans (m₂.heap.lengthened_addArray _)⟩
      have hfol := (halike₂.follows hm₁).of_operands
      exact BindingEnding.trans hfol halike₂.current_eq
        (bindFixed_ending pos _ hlen hfol.is_sound halike₂.operands_eq)
    · rw [bind_of_error hd]
      exact ⟨hfol.of_operands, ⟨_, hops⟩, hrec⟩

/-! ## Running the body -/

/-- Running statements keeps the promise. -/
theorem Kept.runStatements (h : Trusted self other) (ss : List Statement) :
    Kept self (Eval.runStatements self ss) (Eval.runStatements other ss) := by
  induction ss with
  | nil => exact .pure ()
  | cons s ss ih => exact (work h _).discard.bind fun _ => ih

/-- What the activation of a procedure promises, where `s` is what stands below its arguments. -/
def ActivationEnding (s : Operands) (m : Machine) :
    EStateM.Result Interruption Machine Unit → Prop
  | .ok _ m' => m.Follows m' ∧ m'.current = m.current ∧ m'.operands = s
  | .error (.raised d) m' =>
    m.Follows m' ∧ (∃ vs, m'.operands = s.pushAll vs) ∧ d ∈ m'.raised
  | .error (.returned _) m' =>
    m.Follows m' ∧ m'.scopes.Within m'.current m.current ∧ ∃ v, m'.operands = s.push v
  | .error _ _ => True

/-- The activation of a procedure ends as promised, in whichever way its work is done. -/
theorem activation_ending (h : Trusted self other) {p : Procedure} {values : List Value}
    {types : List (Option ObjectRef)} (pos : Position) (haccepts : p.accepts values.length = true)
    (htypes : types.length = min p.fixed.length values.length) {s : Operands} {m : Machine}
    (hm : m.Sound) (hops : m.operands = s.pushAll values) :
    activation self p values.length types pos m = activation other p values.length types pos m ∧
      ActivationEnding s m (activation self p values.length types pos m) := by
  have hbind := bindParameters_ending pos haccepts htypes hm hops
  unfold activation
  cases hb : bindParameters p values.length types pos m with
  | error e m₁ =>
    rw [hb] at hbind
    rw [bind_of_error hb, bind_of_error hb]
    refine ⟨rfl, ?_⟩
    cases e with
    | raised d => exact hbind
    | _ => exact False.elim hbind
  | ok u m₁ =>
    rw [hb] at hbind
    obtain ⟨hf₁, hc₁, ho₁⟩ := hbind
    have hbody := Kept.runStatements h p.body.statements
    rw [bind_of_ok hb, bind_of_ok hb]
    refine ⟨(hbody m₁ hf₁.is_sound).agree, ?_⟩
    have hend := (hbody m₁ hf₁.is_sound).ending
    revert hend
    match runStatements self p.body.statements m₁ with
    | .ok _ m₂ =>
      rintro ⟨hf₂, hc₂, ho₂⟩
      exact ⟨hf₁.trans hc₁ hf₂, hc₂.trans hc₁, ho₂.trans ho₁⟩
    | .error (.raised _) m₂ =>
      rintro ⟨hf₂, ho₂, hd⟩
      exact ⟨hf₁.trans hc₁ hf₂, ⟨[], ho₂.trans ho₁⟩, hd⟩
    | .error (.returned _) m₂ =>
      rintro ⟨hf₂, hw₂, v, hv⟩
      rw [hc₁] at hw₂
      rw [ho₁] at hv
      exact ⟨hf₁.trans hc₁ hf₂, hw₂, v, hv⟩
    | .error (.exited _) _ => exact fun _ => trivial
    | .error (.awaiting _) _ => exact fun _ => trivial
    | .error .exhausted _ => exact fun _ => trivial

/-! ## Entering and leaving a procedure -/

/-- Calling a procedure opens a scope, activates the procedure there, and leaves in one of three
ways. -/
theorem enter_apply (self : Work → Eval Value) (p : Procedure) (count : Nat)
    (types : List (Option ObjectRef)) (height : Nat) (pos : Position) (m : Machine) :
    enter self p count types height pos m =
      match activation self p count types pos (opened m) with
      | .ok _ m' => (do closeScope pos; pushOperand (.int 0); popOperand pos) m'
      | .error (.returned _) m' =>
        (do
          closeUntil (opened m).current pos (m'.current.index + 1)
          closeScope pos
          popOperand pos) m'
      | .error e m' =>
        .error e { m' with current := m.current, operands := m'.operands.unwindTo height } := by
  unfold enter
  rw [get_bind, bind_of_ok (openScope_apply m), get_bind]
  cases ha : activation self p count types pos (opened m) with
  | ok u m' =>
    have hobs : observe (activation self p count types pos) (opened m) =
        .ok (.ok u : Except Interruption Unit) m' := by
      unfold observe
      rw [ha]
    exact bind_of_ok hobs
  | error e m' =>
    have hobs : observe (activation self p count types pos) (opened m) =
        .ok (.error e : Except Interruption Unit) m' := by
      unfold observe
      rw [ha]
    refine (bind_of_ok hobs).trans ?_
    cases e <;> rfl

/-- What entering a procedure promises, where `s` is what stands below its arguments: no `return` gets
out, and after a value or an error the caller has its scope and its operands. -/
def CallEnding (s : Operands) (m : Machine) :
    EStateM.Result Interruption Machine Value → Prop
  | .ok _ m' => m.Follows m' ∧ m'.current = m.current ∧ m'.operands = s
  | .error (.raised d) m' =>
    m.Follows m' ∧ m'.current = m.current ∧ m'.operands = s ∧ d ∈ m'.raised
  | .error (.returned _) _ => False
  | .error _ _ => True

/-- Entering a procedure ends as promised, in whichever way its work is done. -/
theorem enter_ending (h : Trusted self other) {p : Procedure} {values : List Value}
    {types : List (Option ObjectRef)} (pos : Position) (haccepts : p.accepts values.length = true)
    (htypes : types.length = min p.fixed.length values.length) {s : Operands} {m : Machine}
    (hm : m.Sound) (hops : m.operands = s.pushAll values) :
    enter self p values.length types s.height pos m =
        enter other p values.length types s.height pos m ∧
      CallEnding s m (enter self p values.length types s.height pos m) := by
  have hopen := follows_opened hm
  obtain ⟨hagree, hend⟩ := activation_ending h pos haccepts htypes hopen.is_sound
    (show (opened m).operands = s.pushAll values from hops)
  rw [enter_apply, enter_apply, ← hagree]
  refine ⟨rfl, ?_⟩
  revert hend
  match activation self p values.length types pos (opened m) with
  | .ok _ m' =>
    rintro ⟨hf, hc, ho⟩
    dsimp only
    rw [bind_of_ok (closeScope_of_opened hm hf hc pos), bind_of_ok (pushOperand_apply _ _),
      popOperand_of_push rfl pos]
    exact ⟨follows_back hm hf _, rfl, ho⟩
  | .error (.returned _) m' =>
    rintro ⟨hf, hw, v, hv⟩
    dsimp only
    rw [bind_of_ok (closeUntil_of_within pos hf.is_sound hw (Nat.lt_succ_self _))]
    have hf' : (opened m).Follows { m' with current := (opened m).current } :=
      hf.move (lt_of_lt_of_le hopen.is_sound.current_lt hf.grown.size_le) m'.operands
    have hpop : popOperand pos { m' with current := m.current } =
        .ok v { m' with current := m.current, operands := s } :=
      popOperand_of_push (show ({ m' with current := m.current } : Machine).operands = _ from hv) pos
    rw [bind_of_ok (closeScope_of_opened hm hf' rfl pos)]
    change CallEnding s m (popOperand pos { m' with current := m.current })
    rw [hpop]
    exact ⟨follows_back hm hf _, rfl, rfl⟩
  | .error (.raised _) m' =>
    rintro ⟨hf, ⟨vs, hvs⟩, hd⟩
    refine ⟨follows_back hm hf _, rfl, ?_, hd⟩
    change m'.operands.unwindTo s.height = s
    rw [hvs, Operands.unwindTo_pushAll]
  | .error (.exited _) _ => exact fun _ => trivial
  | .error (.awaiting _) _ => exact fun _ => trivial
  | .error .exhausted _ => exact fun _ => trivial

namespace Kept

/-- Pushing the arguments and entering the procedure keeps the promise, if the arguments were checked. -/
theorem enter (h : Trusted self other) {p : Procedure} {values : List Value}
    {types : List (Option ObjectRef)} (pos : Position) (haccepts : p.accepts values.length = true)
    (htypes : types.length = min p.fixed.length values.length) :
    Kept self
      (do
        let height := (← MonadState.get).operands.height
        modify fun m => { m with operands := m.operands.pushAll values }
        Eval.enter self p values.length types height pos)
      (do
        let height := (← MonadState.get).operands.height
        modify fun m => { m with operands := m.operands.pushAll values }
        Eval.enter other p values.length types height pos) := by
  intro m hm
  obtain ⟨hagree, hend⟩ := enter_ending h pos haccepts htypes
    (show ({ m with operands := m.operands.pushAll values } : Machine).Sound from
      ⟨hm.nested, hm.current_lt, hm.genuine⟩) rfl
  refine ⟨hagree, ?_, ?_⟩
  · change Ending m (Eval.enter self p values.length types m.operands.height pos
      { m with operands := m.operands.pushAll values })
    revert hend
    match Eval.enter self p values.length types m.operands.height pos
        { m with operands := m.operands.pushAll values } with
    | .ok _ m' => exact fun ⟨hf, hc, ho⟩ => ⟨hf.of_operands, hc, ho⟩
    | .error (.raised _) m' => exact fun ⟨hf, _, ho⟩ => ⟨hf.of_operands, ho⟩
    | .error (.returned _) _ => exact False.elim
    | .error (.exited _) _ => exact id
    | .error (.awaiting _) _ => exact id
    | .error .exhausted _ => exact id
  · intro pos' m' hret
    change Eval.enter self p values.length types m.operands.height pos
      { m with operands := m.operands.pushAll values } = _ at hret
    rw [hret] at hend
    exact False.elim hend

/-- Calling a procedure keeps the promise. -/
theorem callProcedure (h : Trusted self other) (p : Procedure) (receiver : Option ObjectRef)
    (arguments : List Value) (pos : Position) :
    Kept self (Eval.callProcedure self p receiver arguments pos)
      (Eval.callProcedure other p receiver arguments pos) := by
  unfold Eval.callProcedure
  dsimp only
  split
  · rename_i haccepts
    exact (checkArguments h p _ pos).bind_of (fun m types m' hok => length_of_checkArguments hok)
      fun types htypes => enter h pos haccepts htypes
  · exact .raise rfl pos

end Kept

end Eval

end ProtoScript
