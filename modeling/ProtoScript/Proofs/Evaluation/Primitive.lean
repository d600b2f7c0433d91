import ProtoScript.Proofs.Evaluation.Ending

/-!
# The primitive computations

What the small computations on the machine promise.  Those that look something up, or change the heap
or the value of a variable, keep the promise by themselves.  Those that open and
close scopes, and those that push and pop operands, do not, since they change what the promise is
about; for them the result is given outright.
-/

namespace ProtoScript

namespace Eval

/-! ## Raising problems -/

/-- Raising a problem records it and stops with it. -/
theorem raise_apply {α : Type} (p : Problem) (pos : Position) (m : Machine) :
    (raise p pos : Eval α) m =
      .error (.raised (p.diagnostic m.file pos))
        { m with raised := m.raised ++ [p.diagnostic m.file pos] } := rfl

/-- The machine on which a genuine problem was recorded follows the one before. -/
theorem follows_raise {m : Machine} (hm : m.Sound) {p : Problem} (hp : p.isInternal = false)
    (pos : Position) :
    m.Follows { m with raised := m.raised ++ [p.diagnostic m.file pos] } :=
  (Machine.Follows.refl hm).raise hp pos

/-- The problem that is raised has been recorded. -/
theorem mem_raise (p : Problem) (pos : Position) (m : Machine) :
    p.diagnostic m.file pos ∈ m.raised ++ [p.diagnostic m.file pos] :=
  List.mem_append_right _ (List.mem_singleton_self _)

namespace Kept

variable {α : Type} {self : Work → Eval Value}

/-- Raising a genuine problem keeps the promise. -/
theorem raise {p : Problem} (hp : p.isInternal = false) (pos : Position) :
    Kept self (Eval.raise p pos : Eval α) (Eval.raise p pos) := by
  intro m hm
  refine ⟨rfl, ⟨follows_raise hm hp pos, rfl, mem_raise p pos m⟩, ?_⟩
  intro pos' m' h
  cases h

/-! ## Reading and changing the machine -/

/-- Looking at the machine keeps the promise. -/
theorem get : Kept self (MonadState.get : Eval Machine) MonadState.get :=
  of_alike fun m => ⟨m, m, rfl, .refl m⟩

/-- Changing the heap keeps the promise, if no array gets shorter. -/
theorem modifyHeap {f : Heap → Heap} (hf : ∀ h : Heap, h.Lengthened (f h)) :
    Kept self (Eval.modifyHeap f) (Eval.modifyHeap f) :=
  of_alike fun m => ⟨(), _, rfl, .of_heap m (hf m.heap)⟩

/-- Adding something to the heap keeps the promise, if no array gets shorter. -/
theorem withHeap {f : Heap → α × Heap} (hf : ∀ h : Heap, h.Lengthened (f h).2) :
    Kept self (Eval.withHeap f) (Eval.withHeap f) :=
  of_alike fun m => ⟨(f m.heap).1, _, rfl, .of_heap m (hf m.heap)⟩

/-- Changing an object keeps the promise. -/
theorem modifyObject (o : ObjectRef) (f : Object → Object) :
    Kept self (Eval.modifyHeap (·.modifyObject o f)) (Eval.modifyHeap (·.modifyObject o f)) :=
  modifyHeap fun h => h.lengthened_modifyObject o f

/-- Putting a value into a cell keeps the promise. -/
theorem putCell (c : CellRef) (v : Value) : Kept self (Eval.putCell c v) (Eval.putCell c v) :=
  of_alike fun m => ⟨(), { m with scopes := m.scopes.put c v }, rfl,
    rfl, fun _ => rfl, rfl, rfl, rfl, rfl, fun _ _ _ _ => rfl, .refl _⟩

/-- Declaring a variable keeps the promise: it binds a name, and scopes stay where they are. -/
theorem declare (name : String) (type : Option ObjectRef) (pos : Position) :
    Kept self (Eval.declare name type pos) (Eval.declare name type pos) := by
  unfold Eval.declare
  refine get.bind fun m => ?_
  split
  · exact .raise rfl pos
  · exact of_alike fun m =>
      ⟨(m.scopes.bind m.current name type).1,
        { m with scopes := (m.scopes.bind m.current name type).2 }, rfl,
        Scopes.bind_size _ _ _ _, Scopes.bind_parent? _ _ _ _, rfl, rfl, rfl, rfl,
        Scopes.bindsOnly_bind _ _ _ _, .refl _⟩

/-- Checking a value against a type keeps the promise. -/
theorem typecheck (v : Value) (declared : ObjectRef) (pos : Position) :
    Kept self (Eval.typecheck v declared pos) (Eval.typecheck v declared pos) := by
  unfold Eval.typecheck
  refine get.bind fun m => ?_
  split
  · exact .raise rfl pos
  · exact .ite (.pure _) (.raise rfl pos)

/-- Being cut off keeps the promise, for nothing is promised then. -/
theorem exhausted : Kept self (throw .exhausted : Eval α) (throw .exhausted) :=
  of_error (fun _ => rfl) nofun nofun

/-- A loop keeps the promise if its condition and its body do. -/
theorem whileTrue {condition condition' : Eval Bool} {body body' : Eval Unit}
    (hc : Kept self condition condition') (hb : Kept self body body') (fuel : Nat) :
    Kept self (Eval.whileTrue condition body fuel) (Eval.whileTrue condition' body' fuel) := by
  induction fuel with
  | zero => exact .exhausted
  | succ fuel ih => exact hc.bind fun _ => .ite (hb.bind fun _ => ih) (.pure _)

end Kept

/-! ## Scopes -/

/-- Closing a scope that has a parent goes back to the parent. -/
theorem closeScope_of_parent {m : Machine} {p : ScopeRef} (hroot : m.current ≠ Scopes.root)
    (hp : m.scopes.parent? m.current = some p) (pos : Position) :
    closeScope pos m = .ok () { m with current := p } := by
  unfold closeScope
  rw [get_bind, if_neg hroot, hp]
  rfl

/-- A scope that has a parent is not the root. -/
theorem ne_root_of_parent {s : Scopes} (h : s.Nested) {r p : ScopeRef} (hp : s.parent? r = some p) :
    r ≠ Scopes.root := by
  rintro rfl
  rw [h.root_parent] at hp
  cases hp

/-- Closing scopes up to one that the current scope stands in ends there, and changes nothing else.
The number of the current scope is a sufficient bound, since parents are older. -/
theorem closeUntil_of_within {target : ScopeRef} (pos : Position) {fuel : Nat} {m : Machine}
    (hm : m.Sound) (hw : m.scopes.Within m.current target) (hfuel : m.current.index < fuel) :
    closeUntil target pos fuel m = .ok () { m with current := target } := by
  induction fuel generalizing m with
  | zero => exact absurd hfuel (Nat.not_lt_zero _)
  | succ fuel ih =>
    unfold closeUntil
    rw [get_bind]
    by_cases htarget : m.current = target
    · rw [if_pos htarget, ← htarget]
      rfl
    · rw [if_neg htarget]
      cases hw with
      | self => exact absurd rfl htarget
      | @inside _ p _ hp hw =>
        have hroot := ne_root_of_parent hm.nested hp
        obtain ⟨q, hq, hlt⟩ := hm.nested.parent_older m.current hm.current_lt hroot
        obtain rfl : q = p := Option.some.inj (hq.symm.trans hp)
        rw [bind_of_ok (closeScope_of_parent hroot hp pos)]
        exact ih (m := { m with current := q }) ⟨hm.nested, lt_trans hlt hm.current_lt, hm.genuine⟩ hw
          (lt_of_lt_of_le hlt (Nat.le_of_lt_succ hfuel))

/-- The machine with a new scope inside the current one. -/
def opened (m : Machine) : Machine :=
  { m with
    current := (m.scopes.addChild m.current).1, scopes := (m.scopes.addChild m.current).2 }

/-- Opening a scope makes a new one inside the current one. -/
theorem openScope_apply (m : Machine) : openScope m = .ok () (opened m) := rfl

/-- Opening a scope keeps the scopes in order. -/
theorem follows_opened {m : Machine} (hm : m.Sound) : m.Follows (opened m) := by
  refine ⟨⟨hm.nested.addChild hm.current_lt, ?_, hm.genuine⟩, Scopes.addChild_grown _ _, rfl,
    Scopes.bindsOnly_addChild _ _ _, .refl _⟩
  change m.scopes.scopes.size < (m.scopes.addChild m.current).2.scopes.size
  rw [Scopes.addChild_size]
  exact Nat.lt_succ_self _

/-- As long as scopes only grow, the scope that was opened stands in the one that was current. -/
theorem parent?_of_opened {m m' : Machine} (hm : m.Sound) (h : (opened m).Follows m') :
    m'.scopes.parent? (opened m).current = some m.current := by
  rw [h.grown.parent?_eq _ (follows_opened hm).is_sound.current_lt]
  exact Scopes.addChild_parent?_self _ _

/-- The scope that was opened can be closed again. -/
theorem closeScope_of_opened {m m' : Machine} (hm : m.Sound) (h : (opened m).Follows m')
    (hc : m'.current = (opened m).current) (pos : Position) :
    closeScope pos m' = .ok () { m' with current := m.current } := by
  have hp : m'.scopes.parent? m'.current = some m.current := by
    rw [hc]
    exact parent?_of_opened hm h
  exact closeScope_of_parent (ne_root_of_parent h.is_sound.nested hp) hp pos

/-- What follows a machine with an opened scope follows the one before. -/
theorem follows_of_opened {m m' : Machine} (hm : m.Sound) (h : (opened m).Follows m') : m.Follows m' :=
  (follows_opened hm).trans_of (.inr (Nat.le_refl _)) h

/-- A machine that follows one with an opened scope can go back to the scope before. -/
theorem follows_back {m m' : Machine} (hm : m.Sound) (h : (opened m).Follows m')
    (s : Operands) : m.Follows { m' with current := m.current, operands := s } :=
  have hf := follows_of_opened hm h
  hf.move (lt_of_lt_of_le hm.current_lt hf.grown.size_le) s

/-! ## Operands -/

/-- Pushing an operand. -/
theorem pushOperand_apply (v : Value) (m : Machine) :
    pushOperand v m = .ok () { m with operands := m.operands.push v } := rfl

/-- Popping takes off what was pushed last. -/
theorem popOperand_of_push {m : Machine} {s : Operands} {v : Value} (h : m.operands = s.push v)
    (pos : Position) : popOperand pos m = .ok v { m with operands := s } := by
  unfold popOperand
  rw [get_bind, h, Operands.pop?_push]
  rfl

end Eval

end ProtoScript
