import ProtoScript.Proofs.Evaluation.Ending
import ProtoScript.Proofs.Steady.Machine

/-!
# Routines

A native function and a message are made of steps of a few kinds: they look at the machine, change the
heap, talk to the host, stop with a problem, or leave work to the function `self`.  They change
neither scopes nor operands, and do not look at the errors that were recorded.  `Routine` says so about
a computation by the way it is built.

What is known about computations in general, how they end, that the recorded errors do not matter to
them, and that they lead from steady machines to steady ones, is known of every step of a routine, and
so of every routine.  Therefore each message and each native function is gone through once, to find
that it is a routine, and each of these families of facts comes from one induction over routines.

Only for the last of them does it matter what values refer to, and this is only known of a steady
machine.  So whatever a step asks for, or yields, in the way of such facts is under a condition `sure`:
it is true if the routine starts from a steady machine, and false if nothing is known.
-/

namespace ProtoScript

/-- What a piece of work refers to is in the heap. -/
def Work.Within (h : Heap) : Work → Prop
  | .call function receiver arguments _ =>
    h.Has function ∧ (∀ o, receiver = some o → h.Has (.object o)) ∧ ∀ v ∈ arguments, h.Has v
  | _ => True

namespace Eval

/-! ## What is known of values -/

/-- A value that is in the heap. -/
abbrev Present (v : Value) (m : Machine) : Prop := m.heap.Has v

/-- An object that is in the heap. -/
abbrev ObjectPresent (o : ObjectRef) (m : Machine) : Prop := m.heap.Has (.object o)

/-- Values that are in the heap. -/
abbrev AllPresent (vs : List Value) (m : Machine) : Prop := ∀ v ∈ vs, m.heap.Has v

/-- Nothing is said about a value. -/
abbrev Anything {α : Type} (_ : α) (_ : Machine) : Prop := True

/-- No values are all in the heap. -/
theorem allPresent_nil {m : Machine} : AllPresent [] m :=
  fun _ hv => absurd hv List.not_mem_nil

/-- A list of one value is in the heap if the value is. -/
theorem allPresent_singleton {m : Machine} {v : Value} (hv : m.heap.Has v) : AllPresent [v] m := by
  intro w hw
  obtain rfl := List.mem_singleton.mp hw
  exact hv

/-- The elements of an array are in the heap. -/
theorem elements_present {m : Machine} (hm : m.Steady) (a : ArrayRef) :
    AllPresent (m.heap.elements a).toList m :=
  fun v hv => hm.closed.elements a v (Array.mem_toList_iff.mp hv)

/-- The host is asked, and the computation waits if there is no answer yet. -/
theorem ask_apply (q : Query) (m : Machine) : ask q m =
    match m.host.answer? q with
    | some (a, host) => .ok a { m with host }
    | none => .error (.awaiting q) m := by
  unfold ask
  rw [get_bind]
  cases m.host.answer? q <;> rfl

/-- Asking the host changes nothing but the host. -/
theorem ask_eq (q : Query) : ask q = MonadState.get >>= fun m =>
    match m.host.answer? q with
    | some (a, host) => (do modify fun m => { m with host }; return a)
    | none => throw (.awaiting q) := by
  funext m
  rw [ask_apply, get_bind]
  cases m.host.answer? q <;> rfl

/-! ## The steps -/

/-- A change of the machine that only concerns the world outside, and does not look at the recorded
errors. -/
structure Outside {α : Type} (f : Machine → α × Machine) : Prop where
  value_eq : ∀ m ds, (f { m with raised := ds }).1 = (f m).1
  spares : ∀ m ds, (f { m with raised := ds }).2 = { (f m).2 with raised := ds }
  rest_eq : ∀ m, ∃ loads host events, (f m).2 = { m with loads, host, events }

/-- Two computations that are made in the same way from two functions that do the work, out of the steps
of routines.  The first one starts from the machine `m`, and `Q` holds of the value and the machine that
it ends with, if one is sure that `m` is steady. -/
inductive Routine (sure : Prop) (self other : Work → Eval Value) :
    {α : Type} → Machine → Eval α → Eval α → (α → Machine → Prop) → Prop where
  | pure {α : Type} {m : Machine} {a : α} {Q : α → Machine → Prop} (hq : sure → Q a m) :
    Routine sure self other m (Pure.pure a) (Pure.pure a) Q
  | bind {α β : Type} {m : Machine} {x y : Eval α} {f g : α → Eval β} {P : α → Machine → Prop}
    {Q : β → Machine → Prop} (hx : Routine sure self other m x y P)
    (hf : ∀ a m', (sure → m.Leads m') → (sure → P a m') → Routine sure self other m' (f a) (g a) Q) :
    Routine sure self other m (x >>= f) (y >>= g) Q
  /-- What is done with the machine does not depend on the recorded errors. -/
  | read {α : Type} {m : Machine} {f g : Machine → Eval α} {Q : α → Machine → Prop}
    (hsame : ∀ m ds, f { m with raised := ds } = f m)
    (hf : ∀ m', (sure → m.Leads m') → Routine sure self other m' (f m') (g m') Q) :
    Routine sure self other m (MonadState.get >>= f) (MonadState.get >>= g) Q
  /-- No array gets shorter, and from a steady machine the heap may evolve into what it becomes. -/
  | withHeap {α : Type} {m : Machine} {f : Heap → α × Heap} {Q : α → Machine → Prop}
    (hlengthened : ∀ h : Heap, h.Lengthened (f h).2)
    (hevolves : sure → m.Steady →
      m.heap.Evolves (f m.heap).2 ∧ Q (f m.heap).1 { m with heap := (f m.heap).2 }) :
    Routine sure self other m (Eval.withHeap f) (Eval.withHeap f) Q
  | outside {α : Type} {m : Machine} {f : Machine → α × Machine} (hf : Outside f) :
    Routine sure self other m (modifyGet f) (modifyGet f) Anything
  /-- The problem is one of the program's own. -/
  | raise {α : Type} {m : Machine} {p : Problem} {Q : α → Machine → Prop} (hp : p.isInternal = false)
    (pos : Position) : Routine sure self other m (Eval.raise p pos : Eval α) (Eval.raise p pos) Q
  /-- A routine may stop in any other way, but `return` only comes out of the work of others. -/
  | stop {α : Type} {m : Machine} {e : Interruption} {Q : α → Machine → Prop}
    (hraised : ∀ d, e ≠ .raised d) (hreturned : ∀ pos, e ≠ .returned pos) :
    Routine sure self other m (throw e : Eval α) (throw e) Q
  | work {m : Machine} (w : Work) (hw : sure → w.Within m.heap) :
    Routine sure self other m (self w) (other w) Present

namespace Routine

variable {α β : Type} {sure : Prop} {self other : Work → Eval Value} {m : Machine}

/-! ## Choices and results -/

/-- A value that is there already is handed to the next step. -/
theorem value {a : α} {f g : α → Eval β} {Q : β → Machine → Prop}
    (h : Routine sure self other m (f a) (g a) Q) :
    Routine sure self other m (Pure.pure a >>= f) (Pure.pure a >>= g) Q :=
  h

/-- A function of the result makes no difference. -/
theorem map {x y : Eval α} {P : α → Machine → Prop} {Q : β → Machine → Prop} (f : α → β)
    (hx : Routine sure self other m x y P) (hPQ : ∀ a m', (sure → P a m') → sure → Q (f a) m') :
    Routine sure self other m (f <$> x) (f <$> y) Q := by
  rw [map_eq_pure_bind, map_eq_pure_bind]
  exact hx.bind fun a m' _ hp => .pure (hPQ a m' hp)

/-- A result may be forgotten. -/
theorem discard {x y : Eval α} {P : α → Machine → Prop} (hx : Routine sure self other m x y P) :
    Routine sure self other m (Functor.discard x) (Functor.discard y) Anything :=
  hx.map _ fun _ _ _ _ => trivial

/-- A choice is a routine if both sides are. -/
theorem ite {c : Prop} [Decidable c] {x₁ y₁ x₂ y₂ : Eval α} {Q : α → Machine → Prop}
    (h₁ : c → Routine sure self other m x₁ y₁ Q) (h₂ : ¬ c → Routine sure self other m x₂ y₂ Q) :
    Routine sure self other m (if c then x₁ else x₂) (if c then y₁ else y₂) Q := by
  by_cases hc : c
  · rw [if_pos hc, if_pos hc]
    exact h₁ hc
  · rw [if_neg hc, if_neg hc]
    exact h₂ hc

/-- Being cut off. -/
theorem exhausted {Q : α → Machine → Prop} :
    Routine sure self other m (throw .exhausted : Eval α) (throw .exhausted) Q :=
  .stop nofun nofun

/-- The end of the whole program. -/
theorem exited (code : Int) {Q : α → Machine → Prop} :
    Routine sure self other m (throw (.exited code) : Eval α) (throw (.exited code)) Q :=
  .stop nofun nofun

/-! ## Work -/

/-- Evaluating an expression is work. -/
theorem expression (e : Expression) :
    Routine sure self other m (self (.expression e)) (other (.expression e)) Present :=
  .work _ fun _ => trivial

/-- Calling with an object as the receiver is work. -/
theorem callFor {function : Value} {o : ObjectRef} {arguments : List Value}
    (hfunction : sure → m.heap.Has function) (ho : sure → m.heap.Has (.object o))
    (harguments : sure → AllPresent arguments m) (pos : Position) :
    Routine sure self other m (self (.call function (some o) arguments pos))
      (other (.call function (some o) arguments pos)) Present := by
  refine .work _ fun h => ⟨hfunction h, fun o' ho' => ?_, harguments h⟩
  obtain rfl := Option.some.inj ho'
  exact ho h

/-- Calling without a receiver is work. -/
theorem callFree {function : Value} {arguments : List Value}
    (hfunction : sure → m.heap.Has function) (harguments : sure → AllPresent arguments m)
    (pos : Position) :
    Routine sure self other m (self (.call function none arguments pos))
      (other (.call function none arguments pos)) Present :=
  .work _ fun h => ⟨hfunction h, nofun, harguments h⟩

/-! ## The heap -/

/-- Changing the heap. -/
theorem modifyHeap {f : Heap → Heap} (hlengthened : ∀ h : Heap, h.Lengthened (f h))
    (hevolves : sure → m.Steady → m.heap.Evolves (f m.heap)) :
    Routine sure self other m (Eval.modifyHeap f) (Eval.modifyHeap f) Anything :=
  withHeap (f := fun h => ((), f h)) hlengthened fun h hm => ⟨hevolves h hm, trivial⟩

/-- Changing an object into another one of the same kind and with the same parent, whose members are in
the heap. -/
theorem modifyObject (o : ObjectRef) {f : Object → Object}
    (hobject : sure → m.Steady → m.heap.Evolves (m.heap.modifyObject o f)) :
    Routine sure self other m (Eval.modifyHeap fun h => h.modifyObject o f)
      (Eval.modifyHeap fun h => h.modifyObject o f) Anything :=
  modifyHeap (fun h => h.lengthened_modifyObject o f) hobject

/-- Making an object. -/
theorem newObject {o : Object} (ho : sure → m.heap.HasObject o) :
    Routine sure self other m (Eval.newObject o) (Eval.newObject o) ObjectPresent :=
  withHeap (fun h => h.lengthened_addObject o) fun h hm => hm.closed.addObject (ho h)

/-- Making an array. -/
theorem newArray {vs : List Value} (hvs : sure → AllPresent vs m) :
    Routine sure self other m (Eval.newArray vs) (Eval.newArray vs) Present := by
  refine bind (withHeap (Q := fun a m' => m'.heap.Has (.array a))
    (fun h => h.lengthened_addArray _) fun h hm => ?_) fun a m' _ ha => .pure ha
  exact hm.closed.addArray fun v hv => hvs h v (List.mem_toArray.mp hv)

/-- Copying an object, below a parent that is there. -/
theorem copyObject {o : ObjectRef} (ho : sure → m.heap.Has (.object o)) {parent : Option ObjectRef}
    (hparent : sure → ∀ p, parent = some p → m.heap.Has (.object p)) :
    Routine sure self other m (Eval.withHeap (·.copy o parent)) (Eval.withHeap (·.copy o parent))
      ObjectPresent :=
  withHeap (fun h => h.lengthened_copy o parent) fun h hm => hm.closed.copy (ho h) (hparent h)

/-- Giving a member a value. -/
theorem assignMember (o : ObjectRef) (name : String) {v : Value} (hv : sure → m.heap.Has v) :
    Routine sure self other m (Eval.assignMember o name v) (Eval.assignMember o name v) Anything :=
  modifyObject o fun h hm => hm.closed.modifyObject o rfl (.inl rfl)
    ((hm.closed.members o).insert (hv h) name)

/-- Giving an object more members. -/
theorem insertMembers (o : ObjectRef) {members : Members}
    (hmembers : sure → m.heap.HasMembers members) :
    Routine sure self other m
      (Eval.modifyHeap fun h => h.modifyObject o fun object =>
        { object with members := object.members.insertAll members })
      (Eval.modifyHeap fun h => h.modifyObject o fun object =>
        { object with members := object.members.insertAll members }) Anything :=
  modifyObject o fun h hm => hm.closed.modifyObject o rfl (.inl rfl)
    ((hm.closed.members o).insertAll (hmembers h))

/-- Unwrapping a value. -/
theorem unwrap {v : Value} (hv : sure → m.heap.Has v) :
    Routine sure self other m (Eval.unwrap v) (Eval.unwrap v) Present :=
  .read (fun _ _ => rfl) fun _ hl => .pure fun h => (hl h).is_steady.closed.has_unwrap ((hl h).has (hv h))

/-- Showing a value in a message. -/
theorem inspect (v : Value) :
    Routine sure self other m (Eval.inspect v) (Eval.inspect v) Anything :=
  .read (fun _ _ => rfl) fun _ _ => .pure fun _ => trivial

/-- Asking for the type of a value. -/
theorem runtimeType? (v : Value) :
    Routine sure self other m (Eval.runtimeType? v) (Eval.runtimeType? v)
      fun t m' => ∀ d, t = some d → m'.heap.isType d = true :=
  .read (fun _ _ => rfl) fun m' _ => .pure fun _ _ ht => m'.isType_of_runtimeType? ht

/-- Looking up a member. -/
theorem member (o : ObjectRef) (name : String) (pos : Position) :
    Routine sure self other m (Eval.member o name pos) (Eval.member o name pos) Present := by
  refine .read (fun _ _ => rfl) fun m' hl => ?_
  split
  · rename_i v hv
    exact .pure fun h => (hl h).is_steady.closed.has_lookup hv
  · exact .raise rfl pos

/-! ## The world outside -/

/-- Going over to another host. -/
theorem switchHost (host : Host) :
    Routine sure self other m (modify fun m => { m with host } : Eval Unit)
      (modify fun m => { m with host }) Anything :=
  outside ⟨fun _ _ => rfl, fun _ _ => rfl, fun m => ⟨m.loads, host, m.events, rfl⟩⟩

/-- Asking the host, also when there is no answer yet. -/
theorem ask (q : Query) : Routine sure self other m (Eval.ask q) (Eval.ask q) Anything := by
  rw [ask_eq]
  refine .read (fun _ _ => rfl) fun m' _ => ?_
  split
  · exact (switchHost _).bind fun _ _ _ _ => .pure fun _ => trivial
  · exact .stop nofun nofun

/-- Trying to show a text. -/
theorem offer (text : String) :
    Routine sure self other m (Eval.offer text) (Eval.offer text) Anything := by
  refine outside ⟨fun m ds => ?_, fun m ds => ?_, fun m => ?_⟩ <;> dsimp only <;> split
  · rfl
  · rfl
  · rfl
  · rfl
  · exact ⟨_, _, _, rfl⟩
  · exact ⟨_, _, _, rfl⟩

/-- Showing a text, also when it cannot be shown. -/
theorem emit (text : String) (pos : Position) :
    Routine sure self other m (Eval.emit text pos) (Eval.emit text pos) Anything := by
  refine (offer text).bind fun r _ _ _ => ?_
  cases r with
  | ok _ => exact .pure fun _ => trivial
  | error e => exact .raise rfl pos

end Routine

end Eval

end ProtoScript
