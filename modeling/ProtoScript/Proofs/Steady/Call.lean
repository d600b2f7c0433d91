import ProtoScript.Proofs.Steady.Routine

/-!
# Procedure calls are safe

The arguments of a call are checked against the types of the parameters before they are pushed, and the
parameters are bound to them afterwards.  Meanwhile other types may be evaluated, and arbitrary code may
run for that; but a value that belongs to a nominal type does so forever, so the check still stands when
the parameter gets its value.
-/

namespace ProtoScript

namespace Eval

/-- A value may be given to a variable with a declared type. -/
def Fitting (m : Machine) (type : Option ObjectRef) (v : Value) : Prop :=
  ∀ d, type = some d → m.heap.isType d = true ∧ (m.heap.IsNominal d → m.heap.Belongs v d)

/-- Values may be given to variables with declared types, each to its own. -/
def AllFitting (types : List (Option ObjectRef)) (vs : List Value) (m : Machine) : Prop :=
  ∀ type v, (type, v) ∈ types.zip vs → Fitting m type v

/-- What fits a type goes on fitting it. -/
theorem Fitting.leads {m m' : Machine} {type : Option ObjectRef} {v : Value}
    (hfit : Fitting m type v) (hm : m.Steady) (hl : m.Leads m') (hv : m.heap.Has v) :
    Fitting m' type v := by
  intro d hd
  obtain ⟨htype, hbelongs⟩ := hfit d hd
  refine ⟨hl.grows.heap.isType htype, ?_⟩
  rintro ⟨name, hkind⟩
  have hnominal : m.heap.IsNominal d :=
    ⟨name, (hl.grows.heap.nominal_iff (Heap.has_of_isType htype)).mp hkind⟩
  exact hl.grows.heap.belongs hm.closed hm.core.isType hv htype (hbelongs hnominal)

/-- What fits the types of parameters goes on fitting them. -/
theorem AllFitting.leads {m m' : Machine} {types : List (Option ObjectRef)} {vs : List Value}
    (hfit : AllFitting types vs m) (hm : m.Steady) (hl : m.Leads m')
    (hvs : ∀ v ∈ vs, m.heap.Has v) : AllFitting types vs m' :=
  fun type v hpair => (hfit type v hpair).leads hm hl (hvs v (List.of_mem_zip hpair).2)

/-- Operands other than those of the machine do not affect what fits. -/
theorem AllFitting.of_heap {m m' : Machine} {types : List (Option ObjectRef)} {vs : List Value}
    (hfit : AllFitting types vs m) (hheap : m'.heap = m.heap) : AllFitting types vs m' := by
  unfold AllFitting Fitting at hfit ⊢
  rw [hheap]
  exact hfit

namespace SafeAt

variable {cut : Interruption} {m : Machine} {self other : Work → Eval Value}

/-! ## Checking the arguments -/

/-- Checking the fixed parameters is safe, and the values fit the types that it yields. -/
theorem checkFixed (h : Reliable cut self other) (hm : m.Steady) (pos : Position) (ps : List Parameter)
    {vs : List Value} (hvs : ∀ v ∈ vs, m.heap.Has v) :
    SafeAt cut m (Eval.checkFixed self pos ps vs) (Eval.checkFixed other pos ps vs)
      fun types m' => AllFitting types vs m' := by
  induction ps generalizing vs m with
  | nil => exact pure hm fun _ _ hpair => absurd hpair List.not_mem_nil
  | cons p ps ih =>
    cases vs with
    | nil => exact pure hm fun _ _ hpair => absurd hpair List.not_mem_nil
    | cons v vs =>
      have hv := hvs v List.mem_cons_self
      have hrest := fun w hw => hvs w (List.mem_cons_of_mem _ hw)
      -- the types of the parameters that follow are evaluated after the check of this one
      have hthen {m₁ : Machine} (hl₁ : m.Leads m₁) {type : Option ObjectRef}
          (hfit : Fitting m₁ type v) : SafeAt cut m₁
            (do return type :: (← Eval.checkFixed self pos ps vs))
            (do return type :: (← Eval.checkFixed other pos ps vs))
            fun types m' => AllFitting types (v :: vs) m' := by
        refine (ih hl₁.is_steady (hl₁.all hrest)).bind fun types m₂ hl₂ htypes => ?_
        refine pure hl₂.is_steady fun type' v' hpair => ?_
        rcases List.mem_cons.mp hpair with heq | hpair
        · cases heq
          exact hfit.leads hl₁.is_steady hl₂ (hl₁.has hv)
        · exact htypes type' v' hpair
      unfold Eval.checkFixed
      cases p.type with
      | some e =>
        refine (evaluateType h hm e).bind fun d m₁ hl₁ hd => ?_
        refine (typecheck hl₁.is_steady v d pos).bind ?_
        rintro _ m₂ - ⟨rfl, hbelongs⟩
        refine hthen hl₁ fun d' hd' => ?_
        obtain rfl := Option.some.inj hd'
        exact ⟨hd, hbelongs⟩
      | none => exact hthen (.refl hm) fun d hd => by cases hd

/-- Checking values against one type is safe. -/
theorem checkAll (hm : m.Steady) (type : ObjectRef) (pos : Position) (vs : List Value) :
    SafeAt cut m (Eval.checkAll type pos vs) (Eval.checkAll type pos vs) Anything := by
  induction vs generalizing m with
  | nil => exact pure hm trivial
  | cons v vs ih => exact (typecheck hm v type pos).bind fun _ m₁ hl₁ _ => ih hl₁.is_steady

/-- Checking all arguments of a call is safe, and they fit the types that it yields. -/
theorem checkArguments (h : Reliable cut self other) (hm : m.Steady) (p : Procedure) {vs : List Value}
    (hvs : ∀ v ∈ vs, m.heap.Has v) (pos : Position) :
    SafeAt cut m (Eval.checkArguments self p vs pos) (Eval.checkArguments other p vs pos)
      fun types m' => AllFitting types vs m' := by
  unfold Eval.checkArguments
  refine (checkFixed h hm pos p.fixed hvs).bind fun types m₁ hl₁ hfit => ?_
  have hvs₁ := hl₁.all hvs
  dsimp only
  cases p.rest.bind (·.type) with
  | some e =>
    refine (evaluateType h hl₁.is_steady e).bind fun d m₂ hl₂ _ => ?_
    refine (checkAll hl₂.is_steady d pos _).bind fun _ m₃ hl₃ _ => ?_
    exact pure hl₃.is_steady (hfit.leads hl₁.is_steady (hl₂.trans hl₃) hvs₁)
  | none => exact pure hl₁.is_steady hfit

/-! ## Binding the parameters -/

/-- A declaration does not touch the operands. -/
theorem operands_of_declare {name : String} {type : Option ObjectRef} {pos : Position} {c : CellRef}
    {m m' : Machine} (hok : Eval.declare name type pos m = .ok c m') :
    m'.operands = m.operands := by
  unfold Eval.declare at hok
  rw [get_bind] at hok
  cases hlocal : m.scopes.findLocal? m.current name with
  | some c =>
    rw [hlocal] at hok
    cases hok
  | none =>
    rw [hlocal] at hok
    cases hok
    rfl

/-- Fixed parameters are bound to the operands from the top, which were checked for them. -/
theorem bindFixed (hm : m.Steady) (pos : Position) (entries : List (Parameter × Option ObjectRef))
    {vs rest : List Value} (hlen : vs.length = entries.length)
    (hoperands : m.operands.values = vs ++ rest)
    (hfit : AllFitting (entries.map (·.2)) vs m) :
    SafeAt cut m (Eval.bindFixed pos entries) (Eval.bindFixed pos entries) Anything := by
  induction entries generalizing vs m with
  | nil => exact pure hm trivial
  | cons entry entries ih =>
    obtain ⟨p, type⟩ := entry
    obtain ⟨v, vs, rfl⟩ : ∃ v vs', vs = v :: vs' := List.exists_cons_of_length_eq_add_one hlen
    have hall : ∀ w ∈ v :: vs ++ rest, m.heap.Has w := fun w hw => hm.operands w (hoperands ▸ hw)
    have hv := hall v List.mem_cons_self
    have hvs : ∀ w ∈ vs, m.heap.Has w := fun w hw =>
      hall w (List.mem_cons_of_mem _ (List.mem_append_left _ hw))
    have hpop : Eval.popOperand pos m = .ok v { m with operands := ⟨vs ++ rest⟩ } := by
      unfold Eval.popOperand
      rw [get_bind]
      simp only [Operands.pop?, hoperands, List.cons_append]
      rfl
    have hl₁ : m.Leads { m with operands := ⟨vs ++ rest⟩ } :=
      hm.withOperands fun w hw => hall w (List.mem_cons_of_mem _ hw)
    have hfirst : Fitting { m with operands := ⟨vs ++ rest⟩ } type v :=
      hfit type v List.mem_cons_self
    have hothers : AllFitting (entries.map (·.2)) vs { m with operands := ⟨vs ++ rest⟩ } :=
      fun type' v' hpair => hfit type' v' (List.mem_cons_of_mem _ hpair)
    unfold Eval.bindFixed
    refine (of_ok (Q := fun w m' => w = v ∧ m' = { m with operands := ⟨vs ++ rest⟩ }) hpop hl₁
      ⟨rfl, rfl⟩).bind ?_
    rintro w m₁ - ⟨rfl, rfl⟩
    have hm₁ := hl₁.is_steady
    refine (declare hm₁ p.name (fun d hd => (hfirst d hd).1) p.pos).known.bind ?_
    rintro c m₂ hl₂ ⟨hc, hdeclare⟩
    have hops₂ := operands_of_declare hdeclare
    have hfirst₂ := hfirst.leads hm₁ hl₂ hv
    refine (putCell hl₂.is_steady hc (hl₂.has hv) fun d hd => (hfirst₂ d hd).2).known.bind ?_
    rintro _ m₃ hl₃ ⟨-, hput⟩
    have hops₃ : m₃.operands = m₂.operands := by
      cases hput
      rfl
    refine ih hl₃.is_steady (Nat.succ.inj hlen) ?_ (hothers.leads hm₁ (hl₂.trans hl₃) hvs)
    rw [hops₃, hops₂]

/-- The types of the fixed parameters stand in the order of their operands on the stack. -/
theorem allFitting_reverse {ps : List Parameter} {types : List (Option ObjectRef)} {vs : List Value}
    (hps : types.length = ps.length) (hvs : types.length ≤ vs.length) (hfit : AllFitting types vs m) :
    AllFitting ((ps.zip types).reverse.map (·.2)) (vs.take ps.length).reverse m := by
  have hsnd : (ps.zip types).map (·.2) = types := List.map_snd_zip (Nat.le_of_eq hps)
  have hlen : types.length = (vs.take ps.length).length := by
    rw [List.length_take]
    omega
  intro type v hpair
  rw [List.map_reverse, hsnd] at hpair
  have hzip : types.reverse.zip (vs.take ps.length).reverse = (types.zip (vs.take ps.length)).reverse :=
    (List.reverse_zipWith hlen).symm
  rw [hzip, List.mem_reverse] at hpair
  obtain ⟨i, hi⟩ := List.mem_iff_getElem?.mp hpair
  obtain ⟨htype, hv⟩ := List.getElem?_zip_eq_some.mp hi
  refine hfit type v (List.mem_of_getElem? (i := i) (List.getElem?_zip_eq_some.mpr ⟨htype, ?_⟩))
  rw [List.getElem?_take] at hv
  split at hv
  · exact hv
  · cases hv

/-- The parameters of a procedure are bound to the operands that were pushed for it. -/
theorem bindParameters (hm : m.Steady) {p : Procedure} {vs : List Value}
    {types : List (Option ObjectRef)} {s : Operands} (pos : Position)
    (haccepts : p.accepts vs.length = true)
    (htypes : types.length = min p.fixed.length vs.length) (hoperands : m.operands = s.pushAll vs)
    (hvs : ∀ v ∈ vs, m.heap.Has v) (hfit : AllFitting types vs m) :
    SafeAt cut m (Eval.bindParameters p vs.length types pos)
      (Eval.bindParameters p vs.length types pos) Anything := by
  have hle : p.fixed.length ≤ vs.length := by
    unfold Procedure.accepts at haccepts
    split at haccepts
    · exact of_decide_eq_true haccepts
    · exact Nat.le_of_eq (beq_iff_eq.mp haccepts).symm
  have hps : types.length = p.fixed.length := by omega
  have hreversed := allFitting_reverse hps (by omega) hfit
  have hlen : (vs.take p.fixed.length).reverse.length = (p.fixed.zip types).reverse.length := by
    simp only [List.length_reverse, List.length_take, List.length_zip]
    omega
  -- the operands of the fixed parameters are below those of the others
  have hsplit : m.operands =
      (s.pushAll (vs.take p.fixed.length)).pushAll (vs.drop p.fixed.length) := by
    rw [← Operands.pushAll_append, List.take_append_drop]
    exact hoperands
  have hfixed {m₁ : Machine} (hl₁ : m.Leads m₁)
      (hops : m₁.operands = s.pushAll (vs.take p.fixed.length)) :
      SafeAt cut m₁ (Eval.bindFixed pos (p.fixed.zip types).reverse)
        (Eval.bindFixed pos (p.fixed.zip types).reverse) Anything := by
    have hvalues : m₁.operands.values = (vs.take p.fixed.length).reverse ++ s.values := by
      rw [hops, Operands.values_pushAll]
    refine bindFixed hl₁.is_steady pos _ hlen hvalues (hreversed.leads hm hl₁ fun v hv => ?_)
    exact hvs v (List.mem_of_mem_take (List.mem_reverse.mp hv))
  unfold Eval.bindParameters
  cases hrest : p.rest with
  | none =>
    refine hfixed (.refl hm) ?_
    have hnone : vs.drop p.fixed.length = [] := by
      simp only [Procedure.accepts, hrest, Option.isSome_none, Bool.false_eq_true, if_false,
        beq_iff_eq] at haccepts
      exact List.drop_eq_nil_of_le (Nat.le_of_eq haccepts)
    rw [hsplit, hnone]
    rfl
  | some rest =>
    have hpop := popOperands_of_pushAll pos hsplit []
    rw [List.length_drop, List.append_nil] at hpop
    have hothers : ∀ v ∈ vs.drop p.fixed.length, m.heap.Has v :=
      fun v hv => hvs v (List.mem_of_mem_drop hv)
    have hl₁ : m.Leads { m with operands := s.pushAll (vs.take p.fixed.length) } := by
      refine hm.withOperands fun v hv => hm.operands v ?_
      rw [hsplit, Operands.values_pushAll]
      exact List.mem_append_right _ hv
    dsimp only
    refine (of_ok (Q := fun ws m' => ws = vs.drop p.fixed.length ∧
      m' = { m with operands := s.pushAll (vs.take p.fixed.length) }) hpop hl₁ ⟨rfl, rfl⟩).bind ?_
    rintro ws m₁ - ⟨rfl, rfl⟩
    have huntyped (d : ObjectRef) : none ≠ some d := nofun
    refine (declare hl₁.is_steady rest.name (fun d hd => absurd hd (huntyped d))
      rest.pos).known.bind ?_
    rintro c m₂ hl₂ ⟨hc, hdeclare⟩
    have hops₂ := operands_of_declare hdeclare
    refine (newArray hl₂.is_steady (hl₂.all hothers)).known.bind ?_
    rintro packed m₃ hl₃ ⟨hpacked, hnew⟩
    have hops₃ : m₃.operands = m₂.operands := by
      cases hnew
      rfl
    refine (putCell hl₃.is_steady (hc.leads hl₃) hpacked
      fun d hd => absurd hd (huntyped d)).known.bind ?_
    rintro _ m₄ hl₄ ⟨-, hput⟩
    have hops₄ : m₄.operands = m₃.operands := by
      cases hput
      rfl
    exact hfixed (((hl₁.trans hl₂).trans hl₃).trans hl₄) (by rw [hops₄, hops₃, hops₂])

/-! ## Running the body -/

/-- Running statements one after the other is safe. -/
theorem runStatements (h : Reliable cut self other) (hm : m.Steady) (ss : List Statement) :
    SafeAt cut m (Eval.runStatements self ss) (Eval.runStatements other ss) Anything := by
  induction ss generalizing m with
  | nil => exact pure hm trivial
  | cons s ss ih =>
    have hs : SafeAt cut m (self (.statement s)) (other (.statement s)) Present := work h hm trivial
    exact hs.discard.bind fun _ m₁ hl₁ _ => ih hl₁.is_steady

/-! ## Entering and leaving a procedure -/

/-- A procedure that is entered with checked arguments on the operand stack is left safely. -/
theorem enter (h : Reliable cut self other) (hm : m.Steady) {p : Procedure} {vs : List Value}
    {types : List (Option ObjectRef)} {s : Operands} (height : Nat) (pos : Position)
    (haccepts : p.accepts vs.length = true)
    (htypes : types.length = min p.fixed.length vs.length) (hoperands : m.operands = s.pushAll vs)
    (hvs : ∀ v ∈ vs, m.heap.Has v) (hfit : AllFitting types vs m) :
    SafeAt cut m (Eval.enter self p vs.length types height pos)
      (Eval.enter other p vs.length types height pos) Present := by
  unfold Eval.enter
  refine get ((openScope hm).known.bind fun _ m₁ hl₁ ⟨_, hopen⟩ => get ?_)
  obtain rfl : opened m = m₁ := by
    rw [openScope_apply] at hopen
    exact (EStateM.Result.ok.inj hopen).2
  have hactivation : SafeAt cut (opened m) (Eval.activation self p vs.length types pos)
      (Eval.activation other p vs.length types pos) Anything := by
    refine SafeAt.bind (P := Anything) ?_ fun _ m₂ hl₂ _ => runStatements h hl₂.is_steady _
    exact bindParameters hl₁.is_steady pos haccepts htypes hoperands (hl₁.all hvs)
      (hfit.leads hm hl₁ hvs)
  refine hactivation.observe ?_ ?_ ?_
  · intro _ m₂ hl₂ _
    refine (closeScope hl₂.is_steady pos).bind fun _ m₃ hl₃ _ => ?_
    refine (pushOperand hl₃.is_steady (v := .int 0) trivial).bind fun _ m₄ hl₄ _ => ?_
    exact popOperand hl₄.is_steady pos
  · intro e m₂ hl₂
    -- an error goes on after the scope and the operands are put back
    have hback : SafeAt cut m₂
        (do
          modify fun m' => { m' with current := m.current }
          Eval.unwindTo height
          MonadExcept.throw e : Eval Value)
        (do
          modify fun m' => { m' with current := m.current }
          Eval.unwindTo height
          MonadExcept.throw e) Present := by
      refine (modified (hl₂.is_steady.same rfl rfl rfl)).bind fun _ m₃ hl₃ _ => ?_
      exact (unwindTo hl₃.is_steady height).bind fun _ m₄ hl₄ _ => throw hl₄.is_steady e
    cases e with
    | returned pos' =>
      refine get ((closeUntil hl₂.is_steady _ pos _).bind fun _ m₃ hl₃ _ => ?_)
      exact (closeScope hl₃.is_steady pos).bind fun _ m₄ hl₄ _ => popOperand hl₄.is_steady pos
    | _ => exact hback
  · intro m₂
    have hfinal := h.final
    cases cut with
    | raised d => exact hfinal.elim
    | returned pos' => exact hfinal.elim
    | _ => exact ⟨_, rfl⟩

/-- Calling a procedure is safe. -/
theorem callProcedure (h : Reliable cut self other) (hm : m.Steady) (p : Procedure)
    {receiver : Option ObjectRef} (hreceiver : ∀ o, receiver = some o → m.heap.Has (.object o))
    {arguments : List Value} (harguments : ∀ v ∈ arguments, m.heap.Has v) (pos : Position) :
    SafeAt cut m (Eval.callProcedure self p receiver arguments pos)
      (Eval.callProcedure other p receiver arguments pos) Present := by
  unfold Eval.callProcedure
  dsimp only
  set values := (receiver.map Value.object).toList ++ arguments
  have hvalues : ∀ v ∈ values, m.heap.Has v := by
    intro v hv
    rcases List.mem_append.mp hv with hv | hv
    · obtain ⟨o, ho, rfl⟩ := Option.map_eq_some_iff.mp (Option.mem_toList.mp hv)
      exact hreceiver o ho
    · exact harguments v hv
  refine ite (fun haccepts => ?_) fun _ => raise hm _ pos
  refine (checkArguments h hm p hvalues pos).known.bind fun types m₁ hl₁ ⟨hfit, hcheck⟩ => get ?_
  have hvalues₁ := hl₁.all hvalues
  have hl₂ : m₁.Leads { m₁ with operands := m₁.operands.pushAll values } := by
    refine hl₁.is_steady.withOperands fun v hv => ?_
    rw [Operands.values_pushAll] at hv
    rcases List.mem_append.mp hv with hv | hv
    · exact hvalues₁ v (List.mem_reverse.mp hv)
    · exact hl₁.is_steady.operands v hv
  refine (modified hl₂).bind ?_
  rintro _ m₂ - rfl
  exact enter h hl₂.is_steady _ pos haccepts (length_of_checkArguments hcheck) rfl (hl₂.all hvalues₁)
    (hfit.of_heap rfl)

end SafeAt

end Eval

end ProtoScript
