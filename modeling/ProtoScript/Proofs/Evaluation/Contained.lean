import ProtoScript.Proofs.Evaluation.Run

/-!
# Calls that put the machine back

In general an error that comes out of an evaluation leaves the current scope wherever it was raised, and a
`return` leaves a value on top of the operands.  Whoever handles them puts the machine back.  A procedure
does so for everything that happens in its body, but the types of its parameters are evaluated before it
is entered, and an expansion is run without any procedure around it.

`Heap.Contained h f` singles out the functions for which this cannot happen: procedures without types, and
objects that lead to one of them, or to nothing, when they are called.  However a call of such a function
ends, the scope and the operands are those of the caller, and no `return` comes out of it.
-/

namespace ProtoScript

/-- A procedure that asks for no types, so that nothing is evaluated before it is entered. -/
structure Procedure.Untyped (p : Procedure) : Prop where
  fixed : ∀ q ∈ p.fixed, q.type = none
  rest : p.rest.bind (·.type) = none

instance (p : Procedure) : Decidable p.Untyped :=
  decidable_of_iff ((∀ q ∈ p.fixed, q.type = none) ∧ p.rest.bind (·.type) = none)
    ⟨fun h => ⟨h.1, h.2⟩, fun h => ⟨h.fixed, h.rest⟩⟩

/-- A function whose calls are left through a procedure without types, if they come to one. -/
inductive Heap.Contained (h : Heap) : Value → Prop where
  | procedure {p : Procedure} (hp : p.Untyped) : Contained h (.procedure p)
  /-- An object hands its calls on to its member `call`. -/
  | callable {o : ObjectRef} {f : Value} (hcall : h.lookup? o "call" = some f)
    (hf : Contained h f) : Contained h (.object o)
  | uncallable {o : ObjectRef} (hcall : h.lookup? o "call" = none) : Contained h (.object o)

/-- Arrays have nothing to do with what is contained. -/
theorem Heap.Contained.addArray {h : Heap} {f : Value} (hf : h.Contained f) (elements : Array Value) :
    (h.addArray elements).2.Contained f := by
  induction hf with
  | procedure hp => exact .procedure hp
  | callable hcall _ ih => exact .callable ((h.lookup?_addArray _ _ _).trans hcall) ih
  | uncallable hcall => exact .uncallable ((h.lookup?_addArray _ _ _).trans hcall)

namespace Eval

/-! ## Procedures without types -/

/-- Parameters without types are not checked. -/
theorem checkFixed_of_untyped (self : Work → Eval Value) (pos : Position) {ps : List Parameter}
    (hps : ∀ q ∈ ps, q.type = none) (vs : List Value) (m : Machine) :
    ∃ types, checkFixed self pos ps vs m = .ok types m := by
  induction ps generalizing vs with
  | nil => exact ⟨[], rfl⟩
  | cons q ps ih =>
    cases vs with
    | nil => exact ⟨[], rfl⟩
    | cons v vs =>
      have hq : q.type = none := hps q List.mem_cons_self
      obtain ⟨types, hrest⟩ := ih (fun q' hq' => hps q' (List.mem_cons_of_mem _ hq')) vs
      refine ⟨none :: types, ?_⟩
      unfold checkFixed
      rw [hq]
      exact bind_of_ok hrest

/-- The arguments of a procedure without types are not checked. -/
theorem checkArguments_of_untyped (self : Work → Eval Value) {p : Procedure} (hp : p.Untyped)
    (values : List Value) (pos : Position) (m : Machine) :
    ∃ types, checkArguments self p values pos m = .ok types m := by
  obtain ⟨types, hfixed⟩ := checkFixed_of_untyped self pos hp.fixed values m
  refine ⟨types, ?_⟩
  unfold checkArguments
  rw [bind_of_ok hfixed]
  dsimp only
  rw [hp.rest]
  rfl

/-- Raising an error puts nothing out of place. -/
theorem callEnding_raise {m : Machine} (hm : m.Sound) {p : Problem} (hp : p.isInternal = false)
    (pos : Position) : CallEnding m.operands m (raise p pos m) := by
  rw [raise_apply]
  exact ⟨follows_raise hm hp pos, rfl, rfl, mem_raise p pos m⟩

/-- However the call of a procedure without types ends, the caller has its scope and its operands. -/
theorem callEnding_of_untyped {self other : Work → Eval Value} (h : Trusted self other) {p : Procedure}
    (hp : p.Untyped) (receiver : Option ObjectRef) (arguments : List Value) (pos : Position)
    {m : Machine} (hm : m.Sound) :
    CallEnding m.operands m (callProcedure self p receiver arguments pos m) := by
  unfold callProcedure
  generalize (receiver.map Value.object).toList ++ arguments = values
  dsimp only
  by_cases haccepts : p.accepts values.length = true
  · rw [if_pos haccepts]
    obtain ⟨types, hcheck⟩ := checkArguments_of_untyped self hp values pos m
    have hlength := length_of_checkArguments hcheck
    have hsupplied : ({ m with operands := m.operands.pushAll values } : Machine).Sound :=
      ⟨hm.nested, hm.current_lt, hm.genuine⟩
    have hend := (enter_ending h pos haccepts hlength hsupplied rfl).2
    rw [bind_of_ok hcheck, get_bind]
    change CallEnding m.operands m (enter self p values.length types m.operands.height pos
      { m with operands := m.operands.pushAll values })
    revert hend
    match enter self p values.length types m.operands.height pos
        { m with operands := m.operands.pushAll values } with
    | .ok _ m' => exact fun ⟨hf, hrest⟩ => ⟨hf.of_operands, hrest⟩
    | .error (.raised _) m' => exact fun ⟨hf, hrest⟩ => ⟨hf.of_operands, hrest⟩
    | .error (.returned _) _ => exact id
    | .error (.exited _) _ => exact id
    | .error (.awaiting _) _ => exact id
    | .error .exhausted _ => exact id
  · rw [if_neg haccepts]
    exact callEnding_raise hm rfl pos

/-! ## All contained functions -/

/-- An object hands its calls on, with the arguments in one array. -/
theorem callOther_object (self : Work → Eval Value) (o : ObjectRef) (receiver : Option ObjectRef)
    (arguments : List Value) (pos : Position) (m : Machine) :
    callOther self (.object o) receiver arguments pos m =
      match m.heap.lookup? o "call" with
      | some f =>
        self (.call f (some o) [.array (m.heap.addArray arguments.toArray).1] pos)
          { m with heap := (m.heap.addArray arguments.toArray).2 }
      | none => raise (.notCallable (m.heap.inspect (.object o))) pos m := by
  refine (get_bind _ _).trans ?_
  cases m.heap.lookup? o "call" <;> rfl

/-- A message is handed to the member that is found for it. -/
theorem member_bind {β : Type} (o : ObjectRef) (name : String) (pos : Position) (f : Value → Eval β)
    (m : Machine) : (member o name pos >>= f) m =
      match m.heap.lookup? o name with
      | some v => f v m
      | none => raise (.noMember (m.heap.inspect (.object o)) name) pos m := by
  rw [bind_apply]
  unfold member
  rw [get_bind]
  cases m.heap.lookup? o name <;> rfl

/-- What a call promises after a step that left the scope and the operands, it promises for both. -/
theorem CallEnding.trans {m m₁ : Machine} (hf : m.Follows m₁) (hc : m₁.current = m.current)
    (ho : m₁.operands = m.operands) {r : EStateM.Result Interruption Machine Value}
    (hr : CallEnding m₁.operands m₁ r) : CallEnding m.operands m r := by
  rw [ho] at hr
  match r, hr with
  | .ok _ m', ⟨hf', hc', ho'⟩ => exact ⟨hf.trans hc hf', hc'.trans hc, ho'⟩
  | .error (.raised _) m', ⟨hf', hc', ho', hd⟩ => exact ⟨hf.trans hc hf', hc'.trans hc, ho', hd⟩
  | .error (.exited _) _, _ => trivial
  | .error (.awaiting _) _, _ => trivial
  | .error .exhausted _, _ => trivial

/-- However the call of a contained function ends, the caller has its scope and its operands. -/
theorem callEnding_of_contained (n : Nat) {f : Value} (receiver : Option ObjectRef)
    (arguments : List Value) (pos : Position) {m : Machine} (hm : m.Sound) (hf : m.heap.Contained f) :
    CallEnding m.operands m (run n (.call f receiver arguments pos) m) := by
  -- one level of nesting is used up for every object that hands the call on
  induction n generalizing f receiver arguments m with
  | zero => trivial
  | succ n ih =>
    cases hf with
    | procedure hp => exact callEnding_of_untyped (run_trusted n) hp receiver arguments pos hm
    | @callable o f hcall hf =>
      have halike : m.Alike { m with heap := (m.heap.addArray arguments.toArray).2 } :=
        .of_heap m (m.heap.lengthened_addArray _)
      have hnext := ih (some o) [.array (m.heap.addArray arguments.toArray).1] (halike.is_sound hm)
        (hf.addArray arguments.toArray)
      have hrun : run (n + 1) (.call (.object o) receiver arguments pos) m =
          run n (.call f (some o) [.array (m.heap.addArray arguments.toArray).1] pos)
            { m with heap := (m.heap.addArray arguments.toArray).2 } := by
        refine (callOther_object _ o receiver arguments pos m).trans ?_
        rw [hcall]
      rw [hrun]
      exact .trans (halike.follows hm) rfl rfl hnext
    | @uncallable o hcall =>
      have hrun : run (n + 1) (.call (.object o) receiver arguments pos) m =
          raise (.notCallable (m.heap.inspect (.object o))) pos m := by
        refine (callOther_object _ o receiver arguments pos m).trans ?_
        rw [hcall]
      rw [hrun]
      exact callEnding_raise hm rfl pos

/-- However a message is answered, the scope and the operands are those from before, if the receiver can
be boxed and the box has a contained function for the message, or none. -/
theorem callEnding_send {n : Nat} {v : Value} {method : String} {arguments : List Value}
    {pos : Position} {m m₁ : Machine} {o : ObjectRef} (hm : m.Sound)
    (hbox : box (run n) v pos m = .ok o m₁)
    (hmethod : ∀ f, m₁.heap.lookup? o method = some f → m₁.heap.Contained f) :
    CallEnding m.operands m (send (run n) v method arguments pos m) := by
  have hend := (Kept.box (run_trusted n) v pos m hm).ending
  rw [hbox] at hend
  obtain ⟨hf, hc, ho⟩ := hend
  unfold send
  rw [bind_of_ok hbox, member_bind]
  refine .trans hf hc ho ?_
  cases hlookup : m₁.heap.lookup? o method with
  | some f => exact callEnding_of_contained n (some o) arguments pos hf.is_sound (hmethod f hlookup)
  | none => exact callEnding_raise hf.is_sound rfl pos

end Eval

end ProtoScript
