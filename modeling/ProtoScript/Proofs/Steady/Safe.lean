import ProtoScript.Proofs.Evaluation.Phrase
import ProtoScript.Proofs.Steady.Machine

/-!
# Computations from steady machines

A computation lands if it ends on a steady machine that has grown from the one it starts from, whether
it ends with a value or is interrupted.  What is known about the value is part of the statement.

An assignment to a core variable does not land, and neither does work that goes on after it.  We cut off
such work where it starts, with an interruption that nothing handles, so a computation is safe if it
lands unless it was cut off.  A safe computation made from `self` comes with one made in the same way
from another function, which cannot be told from it as long as nothing is cut off; this way we can show
where all the work of a run starts.

Safety is closed under sequencing, and the primitive computations are safe.  Where a value goes into the
heap, a variable or an operand, what it refers to has to be in the heap; the facts that say so are handed
on from machine to machine with `Machine.Leads.has`.
-/

namespace ProtoScript

/-- An interruption that no rule of the language handles. -/
def Interruption.IsFinal : Interruption → Prop
  | .raised _ | .returned _ => False
  | _ => True

namespace Eval

/-- How a computation from a steady machine ends. -/
def Lands {α : Type} (m : Machine) (Q : α → Machine → Prop) :
    EStateM.Result Interruption Machine α → Prop
  | .ok a m' => m.Leads m' ∧ Q a m'
  | .error _ m' => m.Leads m'

/-- From a machine, a computation lands and agrees with another one, unless it was cut off. -/
def SafeAt {α : Type} (cut : Interruption) (m : Machine) (x y : Eval α) (Q : α → Machine → Prop) :
    Prop :=
  (x m = y m ∧ Lands m Q (x m)) ∨ ∃ m', x m = .error cut m'

/-- Work that is done in one of two ways is safe from every steady machine that has what the work refers
to, and nothing handles the interruption with which it is cut off. -/
structure Reliable (cut : Interruption) (doing other : Work → Eval Value) : Prop where
  final : cut.IsFinal
  safe : ∀ w m, m.Steady → w.Within m.heap → SafeAt cut m (doing w) (other w) Present

/-- Work that is always cut off. -/
theorem Reliable.cutOff {cut : Interruption} (hcut : cut.IsFinal) :
    Reliable cut (fun _ => throw cut) fun _ => throw cut :=
  ⟨hcut, fun _ m _ _ => .inr ⟨m, rfl⟩⟩

/-! ## Sequencing -/

/-- An ending that is reached from a later machine is reached from the first one. -/
theorem Lands.trans {α : Type} {m m₁ : Machine} {Q : α → Machine → Prop}
    {r : EStateM.Result Interruption Machine α} (hm : m.Leads m₁) (hr : Lands m₁ Q r) :
    Lands m Q r := by
  cases r with
  | ok a m₂ => exact ⟨hm.trans hr.1, hr.2⟩
  | error e m₂ => exact hm.trans hr

/-- More may be forgotten about the value of an ending. -/
theorem Lands.mono {α : Type} {m : Machine} {P Q : α → Machine → Prop}
    {r : EStateM.Result Interruption Machine α} (hr : Lands m P r)
    (hPQ : ∀ a m', r = .ok a m' → m.Leads m' → P a m' → Q a m') : Lands m Q r := by
  cases r with
  | ok a m' => exact ⟨hr.1, hPQ a m' rfl hr.1 hr.2⟩
  | error e m' => exact hr

namespace SafeAt

variable {α β : Type} {cut : Interruption} {m : Machine} {self other : Work → Eval Value}

/-- More may be forgotten about the value of a safe computation. -/
theorem mono {x y : Eval α} {P Q : α → Machine → Prop} (hx : SafeAt cut m x y P)
    (hPQ : ∀ a m', m.Leads m' → P a m' → Q a m') : SafeAt cut m x y Q :=
  hx.imp_left fun ⟨hagree, hlands⟩ => ⟨hagree, hlands.mono fun a m' _ => hPQ a m'⟩

/-- The result itself may be used too. -/
theorem known {x y : Eval α} {P : α → Machine → Prop} (hx : SafeAt cut m x y P) :
    SafeAt cut m x y fun a m' => P a m' ∧ x m = .ok a m' :=
  hx.imp_left fun ⟨hagree, hlands⟩ => ⟨hagree, hlands.mono fun _ _ hres _ hp => ⟨hp, hres⟩⟩

/-- A sequence is safe if its first step is, and the second one is from wherever the first one ends. -/
theorem bind {x y : Eval α} {f g : α → Eval β} {P : α → Machine → Prop} {Q : β → Machine → Prop}
    (hx : SafeAt cut m x y P)
    (hf : ∀ a m₁, m.Leads m₁ → P a m₁ → SafeAt cut m₁ (f a) (g a) Q) :
    SafeAt cut m (x >>= f) (y >>= g) Q := by
  rcases hx with ⟨hagree, hlands⟩ | ⟨m₁, hcut⟩
  · cases hres : x m with
    | ok a m₁ =>
      rw [hres] at hlands hagree
      have hnext := hf a m₁ hlands.1 hlands.2
      unfold SafeAt at hnext ⊢
      rw [bind_of_ok hres, bind_of_ok hagree.symm]
      exact hnext.imp_left fun ⟨hagree', hlands'⟩ => ⟨hagree', hlands'.trans hlands.1⟩
    | error e m₁ =>
      rw [hres] at hlands hagree
      unfold SafeAt
      rw [bind_of_error hres, bind_of_error hagree.symm]
      exact .inl ⟨rfl, hlands⟩
  · exact .inr ⟨m₁, bind_of_error hcut⟩

/-- Observing a computation is safe if what is made of each outcome is; if the computation was cut off,
so has to be what is made of that. -/
theorem observe {x y : Eval α} {f g : Except Interruption α → Eval β} {P : α → Machine → Prop}
    {Q : β → Machine → Prop} (hx : SafeAt cut m x y P)
    (hok : ∀ a m₁, m.Leads m₁ → P a m₁ → SafeAt cut m₁ (f (.ok a)) (g (.ok a)) Q)
    (herror : ∀ e m₁, m.Leads m₁ → SafeAt cut m₁ (f (.error e)) (g (.error e)) Q)
    (hcut : ∀ m₁, ∃ m₂, f (.error cut) m₁ = .error cut m₂) :
    SafeAt cut m (Eval.observe x >>= f) (Eval.observe y >>= g) Q := by
  unfold SafeAt
  have hleft := observe_bind x f m
  have hright := observe_bind y g m
  rcases hx with ⟨hagree, hlands⟩ | ⟨m₁, hx⟩
  · rw [← hagree] at hright
    rw [hleft, hright]
    -- whichever way the computation ended, what is made of that is safe
    cases hres : x m with
    | ok a m₁ =>
      rw [hres] at hlands
      exact (hok a m₁ hlands.1 hlands.2).imp_left fun ⟨hsame, hnext⟩ => ⟨hsame, hnext.trans hlands.1⟩
    | error e m₁ =>
      rw [hres] at hlands
      exact (herror e m₁ hlands).imp_left fun ⟨hsame, hnext⟩ => ⟨hsame, hnext.trans hlands⟩
  · rw [hx] at hleft
    obtain ⟨m₂, hm₂⟩ := hcut m₁
    exact .inr ⟨m₂, hleft.trans hm₂⟩

/-- Looking at the machine hands it to the next step. -/
theorem get {f g : Machine → Eval β} {Q : β → Machine → Prop} (h : SafeAt cut m (f m) (g m) Q) :
    SafeAt cut m (MonadState.get >>= f) (MonadState.get >>= g) Q :=
  h

/-- A value that is there already is handed to the next step. -/
theorem value {a : α} {f g : α → Eval β} {Q : β → Machine → Prop} (h : SafeAt cut m (f a) (g a) Q) :
    SafeAt cut m (Pure.pure a >>= f) (Pure.pure a >>= g) Q :=
  h

/-- A function of the result makes no difference. -/
theorem map {x y : Eval α} {P : α → Machine → Prop} {Q : β → Machine → Prop} (f : α → β)
    (hx : SafeAt cut m x y P) (hPQ : ∀ a m', m.Leads m' → P a m' → Q (f a) m') :
    SafeAt cut m (f <$> x) (f <$> y) Q := by
  rw [map_eq_pure_bind, map_eq_pure_bind]
  exact hx.bind fun a m₁ hl hp => .inl ⟨rfl, .refl hl.is_steady, hPQ a m₁ hl hp⟩

/-- A result may be forgotten. -/
theorem discard {x y : Eval α} {P : α → Machine → Prop} (hx : SafeAt cut m x y P) :
    SafeAt cut m (Functor.discard x) (Functor.discard y) Anything :=
  hx.map _ fun _ _ _ _ => trivial

/-- A choice is safe if both sides are. -/
theorem ite {c : Prop} [Decidable c] {x₁ y₁ x₂ y₂ : Eval α} {Q : α → Machine → Prop}
    (h₁ : c → SafeAt cut m x₁ y₁ Q) (h₂ : ¬ c → SafeAt cut m x₂ y₂ Q) :
    SafeAt cut m (if c then x₁ else x₂) (if c then y₁ else y₂) Q := by
  split
  · rename_i hc
    exact h₁ hc
  · rename_i hc
    exact h₂ hc

/-- A computation that ends with a value on a machine that is known. -/
theorem of_ok {x : Eval α} {Q : α → Machine → Prop} {a : α} {m' : Machine} (hx : x m = .ok a m')
    (hl : m.Leads m') (hq : Q a m') : SafeAt cut m x x Q := by
  refine .inl ⟨rfl, ?_⟩
  rw [hx]
  exact ⟨hl, hq⟩

/-- A value that is there already is safe. -/
theorem pure (hm : m.Steady) {a : α} {Q : α → Machine → Prop} (hq : Q a m) :
    SafeAt cut m (Pure.pure a) (Pure.pure a) Q :=
  of_ok rfl (.refl hm) hq

/-- A computation that is interrupted on a machine that is known. -/
theorem of_error {x : Eval α} {Q : α → Machine → Prop} {e : Interruption} {m' : Machine}
    (hx : x m = .error e m') (hl : m.Leads m') : SafeAt cut m x x Q := by
  refine .inl ⟨rfl, ?_⟩
  rw [hx]
  exact hl

/-- Stopping is safe, whatever the reason. -/
theorem throw (hm : m.Steady) (e : Interruption) {Q : α → Machine → Prop} :
    SafeAt cut m (MonadExcept.throw e : Eval α) (MonadExcept.throw e) Q :=
  of_error rfl (.refl hm)

/-- Raising a problem is safe. -/
theorem raise (hm : m.Steady) (p : Problem) (pos : Position) {Q : α → Machine → Prop} :
    SafeAt cut m (Eval.raise p pos : Eval α) (Eval.raise p pos) Q :=
  of_error (raise_apply p pos m) (hm.same rfl rfl rfl)

/-- A change of the machine that is known. -/
theorem modified {f : Machine → Machine} (hl : m.Leads (f m)) :
    SafeAt cut m (modify f : Eval Unit) (modify f) fun _ m' => m' = f m :=
  of_ok rfl hl rfl

/-- Work that `self` does is safe. -/
theorem work (h : Reliable cut self other) (hm : m.Steady) {w : Work} (hw : w.Within m.heap) :
    SafeAt cut m (self w) (other w) Present :=
  h.safe w m hm hw

/-! ## The heap -/

/-- A change of the heap is safe if the heap may evolve in this way. -/
theorem withHeap (hm : m.Steady) {f : Heap → α × Heap} {Q : α → Machine → Prop}
    (he : m.heap.Evolves (f m.heap).2) (hq : Q (f m.heap).1 { m with heap := (f m.heap).2 }) :
    SafeAt cut m (Eval.withHeap f) (Eval.withHeap f) Q :=
  of_ok rfl (hm.withHeap he) hq

/-- A change of the heap that yields nothing is safe if the heap may evolve in this way. -/
theorem modifyHeap (hm : m.Steady) {f : Heap → Heap} (he : m.heap.Evolves (f m.heap)) :
    SafeAt cut m (Eval.modifyHeap f) (Eval.modifyHeap f) Anything :=
  of_ok rfl (hm.withHeap he) trivial

/-- Making an array of values from the heap is safe. -/
theorem newArray (hm : m.Steady) {vs : List Value} (hvs : ∀ v ∈ vs, m.heap.Has v) :
    SafeAt cut m (Eval.newArray vs) (Eval.newArray vs) Present := by
  have harray : ∀ v ∈ vs.toArray, m.heap.Has v := fun v hv => hvs v (List.mem_toArray.mp hv)
  have hadd := hm.closed.addArray harray
  refine (withHeap hm (Q := fun a m' => m'.heap.Has (.array a)) hadd.1 hadd.2).bind ?_
  intro a m₁ hl ha
  exact pure hl.is_steady ha

/-! ## Types -/

/-- A check leaves the machine as it is, and after it the value belongs to the type if that is
nominal. -/
theorem typecheck (hm : m.Steady) (v : Value) (d : ObjectRef) (pos : Position) :
    SafeAt cut m (Eval.typecheck v d pos) (Eval.typecheck v d pos)
      fun _ m' => m' = m ∧ (m.heap.IsNominal d → m.heap.Belongs v d) := by
  by_cases hok : Eval.typecheck v d pos m = .ok () m
  · refine of_ok hok (.refl hm) ⟨rfl, fun hd => ?_⟩
    exact (hm.core.typecheck_iff hm.closed.sides hd).mp hok
  · rw [Eval.typecheck_eq_ok_iff] at hok
    unfold Eval.typecheck
    refine get ?_
    split
    · exact raise hm _ pos
    · rename_i actual hactual
      refine ite (fun hadmits => ?_) fun _ => raise hm _ pos
      exact absurd ⟨actual, hactual, hadmits⟩ hok

/-! ## Variables -/

/-- A variable that was declared is none of the core variables, and has the declared type. -/
structure Declared (type : Option ObjectRef) (c : CellRef) (m : Machine) : Prop where
  free : m.Free c
  lt : c.index < m.scopes.cells.size
  type_eq : (m.scopes.cell c).type = type

/-- A declared cell stays declared. -/
theorem Declared.leads {type : Option ObjectRef} {c : CellRef} {m m' : Machine}
    (hc : Declared type c m) (hl : m.Leads m') : Declared type c m' :=
  ⟨hl.free hc.free, Nat.lt_of_lt_of_le hc.lt hl.grows.cells_le,
    (hl.grows.type_eq c hc.lt).trans hc.type_eq⟩

/-- Declaring a name is safe, and its cell has the declared type. -/
theorem declare (hm : m.Steady) (name : String) {type : Option ObjectRef}
    (htype : ∀ d, type = some d → m.heap.isType d = true) (pos : Position) :
    SafeAt cut m (Eval.declare name type pos) (Eval.declare name type pos) (Declared type) := by
  unfold Eval.declare
  refine get ?_
  split
  · exact raise hm _ pos
  · rename_i hnone
    have hl := hm.declared hnone htype
    refine of_ok rfl hl ⟨hl.free hm.free_declared, ?_, ?_⟩
    · simp
    · exact congrArg Cell.type ((Scopes.cell_bind _ _ _ _ _).trans (if_pos rfl))

/-- A declared variable may be given a value that belongs to its type, if that is nominal. -/
theorem putCell (hm : m.Steady) {type : Option ObjectRef} {c : CellRef} (hc : Declared type c m)
    {v : Value} (hv : m.heap.Has v)
    (hbelongs : ∀ d, type = some d → m.heap.IsNominal d → m.heap.Belongs v d) :
    SafeAt cut m (Eval.putCell c v) (Eval.putCell c v) Anything := by
  refine of_ok rfl (hm.put hv (fun d hd => ?_) hc.free) trivial
  exact hbelongs d (hc.type_eq.symm.trans hd)

/-! ## Scopes and operands -/

/-- Opening a scope is safe. -/
theorem openScope (hm : m.Steady) : SafeAt cut m Eval.openScope Eval.openScope Anything :=
  of_ok rfl hm.opened trivial

/-- Closing a scope is safe. -/
theorem closeScope (hm : m.Steady) (pos : Position) :
    SafeAt cut m (Eval.closeScope pos) (Eval.closeScope pos) Anything := by
  unfold Eval.closeScope
  refine get (ite (fun _ => raise hm _ pos) fun _ => ?_)
  split
  · exact of_ok rfl (hm.same rfl rfl rfl) trivial
  · exact raise hm _ pos

/-- Closing several scopes is safe. -/
theorem closeUntil (hm : m.Steady) (target : ScopeRef) (pos : Position) (fuel : Nat) :
    SafeAt cut m (Eval.closeUntil target pos fuel) (Eval.closeUntil target pos fuel) Anything := by
  induction fuel generalizing m with
  | zero => exact pure hm trivial
  | succ fuel ih =>
    unfold Eval.closeUntil
    refine get (ite (fun _ => pure hm trivial) fun _ => ?_)
    exact (closeScope hm pos).bind fun _ m₁ hl _ => ih hl.is_steady

/-- Pushing a value from the heap as an operand is safe. -/
theorem pushOperand (hm : m.Steady) {v : Value} (hv : m.heap.Has v) :
    SafeAt cut m (Eval.pushOperand v) (Eval.pushOperand v) Anything := by
  refine of_ok rfl (hm.withOperands fun w hw => ?_) trivial
  rcases List.mem_cons.mp hw with rfl | hw
  · exact hv
  · exact hm.operands w hw

/-- Taking an operand from the stack is safe, and it is in the heap. -/
theorem popOperand (hm : m.Steady) (pos : Position) :
    SafeAt cut m (Eval.popOperand pos) (Eval.popOperand pos) Present := by
  unfold Eval.popOperand
  refine get ?_
  rcases hvalues : m.operands.values with _ | ⟨v, vs⟩
  · simp only [Operands.pop?, hvalues]
    exact raise hm _ pos
  · simp only [Operands.pop?, hvalues]
    have hall : ∀ w ∈ v :: vs, m.heap.Has w := fun w hw => hm.operands w (hvalues ▸ hw)
    exact of_ok rfl (hm.withOperands fun w hw => hall w (List.mem_cons_of_mem _ hw))
      (hall v List.mem_cons_self)

/-- Dropping operands is safe. -/
theorem unwindTo (hm : m.Steady) (height : Nat) :
    SafeAt cut m (Eval.unwindTo height) (Eval.unwindTo height) Anything :=
  of_ok rfl (hm.withOperands fun w hw => hm.operands w (List.mem_of_mem_drop hw)) trivial

/-! ## Loops -/

/-- A loop is safe if its condition and its body are, from every machine that it leads to. -/
theorem whileTrue {condition condition' : Eval Bool} {body body' : Eval Unit} (hm : m.Steady)
    (hcondition : ∀ m', m'.Steady → SafeAt cut m' condition condition' Anything)
    (hbody : ∀ m', m'.Steady → SafeAt cut m' body body' Anything) (fuel : Nat) :
    SafeAt cut m (Eval.whileTrue condition body fuel) (Eval.whileTrue condition' body' fuel) Anything := by
  induction fuel generalizing m with
  | zero => exact throw hm _
  | succ fuel ih =>
    refine (hcondition m hm).bind fun b m₁ hl₁ _ => ite (fun _ => ?_) fun _ => pure hl₁.is_steady trivial
    exact (hbody m₁ hl₁.is_steady).bind fun _ m₂ hl₂ _ => ih hl₂.is_steady

end SafeAt

end Eval

end ProtoScript
