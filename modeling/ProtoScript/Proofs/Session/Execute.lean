import ProtoScript.Proofs.Evaluation.Run
import ProtoScript.Proofs.Evaluation.Wording
import ProtoScript.Session

/-!
# Running one statement of a session

A session runs its statements one by one.  Whatever a statement does, the next one finds the operands
and the file as this one found them, and no errors; the scope is the same too, or else it is the root
scope, to which a session goes back after an error.
-/

namespace ProtoScript

namespace Session

open Eval (Ending bind_apply run_trusted)

/-- A statement ends as it would by itself, except that a `return` is refused. -/
theorem refuseReturn_apply (x : Eval Value) (m : Machine) : refuseReturn x m =
    match x m with
    | .ok v m' => .ok v m'
    | .error (.returned pos) m' =>
      Eval.raise .returnOutside pos
        { m' with operands := (m'.operands.pop?.map (·.2)).getD m'.operands }
    | .error e m' => .error e m' := by
  unfold refuseReturn
  refine (Eval.observe_bind _ _ _).trans ?_
  match x m with
  | .ok _ _ => rfl
  | .error (.returned _) _ => rfl
  | .error (.raised _) _ => rfl
  | .error (.exited _) _ => rfl
  | .error (.awaiting _) _ => rfl
  | .error .exhausted _ => rfl

/-- A statement that is run to its end leaves no `return` behind, and ends as promised. -/
theorem refuseReturn_ending (n : Nat) (s : Statement) {m : Machine} (hm : m.Sound) :
    Ending m (refuseReturn (Eval.run n (.statement s)) m) ∧
      ∀ pos m', refuseReturn (Eval.run n (.statement s)) m ≠ .error (.returned pos) m' := by
  have hend := (run_trusted n).ending (.statement s) m hm
  rw [refuseReturn_apply]
  revert hend
  match Eval.run n (.statement s) m with
  | .ok _ m' => exact fun hend => ⟨hend, fun _ _ h => by cases h⟩
  | .error (.returned pos) m' =>
    rintro ⟨hf, -, v, hv⟩
    dsimp only
    rw [hv, Operands.pop?_push, Eval.raise_apply]
    have hf' : m.Follows { m' with operands := m.operands } :=
      hf.move hf.is_sound.current_lt m.operands
    refine ⟨⟨hf'.raise rfl pos, rfl, Eval.mem_raise _ pos _⟩, ?_⟩
    intro pos' m₁ h
    cases h
  | .error (.raised _) m' => exact fun hend => ⟨hend, fun _ _ h => by cases h⟩
  | .error (.exited _) m' => exact fun hend => ⟨hend, fun _ _ h => by cases h⟩
  | .error (.awaiting _) m' => exact fun hend => ⟨hend, fun _ _ h => by cases h⟩
  | .error .exhausted m' => exact fun hend => ⟨hend, fun _ _ h => by cases h⟩

/-- A statement is run on a machine without errors; then the errors are collected, and after an error
the scope and the operands are put back. -/
theorem execute_apply (n : Nat) (s : Statement) (m : Machine) :
    execute n s m =
      match observe (refuseReturn (Eval.run n (.statement s))) { m with raised := [] } with
      | .ok (.ok v) m' =>
        .ok (match m'.raised with
            | [] => .ok v
            | d :: ds => .error (d :: ds)) { m' with raised := [] }
      | .ok (.error e) m' =>
        .ok (.error (match m'.raised with
            | [] => (e.diagnostic? m'.file).toList
            | d :: ds => d :: ds))
          { m' with
            current := Scopes.root
            operands := m'.operands.unwindTo m.operands.height
            raised := [] }
      | .error stop m' => .error stop m' := by
  unfold execute
  generalize observe (refuseReturn (Eval.run n (.statement s))) = x
  change EStateM.bind x _ { m with raised := [] } = _
  unfold EStateM.bind
  match x { m with raised := [] } with
  | .ok (.ok v) m' =>
    obtain ⟨heap, scopes, current, operands, raised, file, loads, host, events⟩ := m'
    cases raised <;> rfl
  | .ok (.error e) m' =>
    obtain ⟨heap, scopes, current, operands, raised, file, loads, host, events⟩ := m'
    cases raised <;> rfl
  | .error stop m' => rfl

/-- What running one statement of a session leaves behind: the operands and the file are as before, no
errors are left over, and the scope is the same or the root scope. -/
structure Tidied (m m' : Machine) : Prop where
  is_sound : m'.Sound
  operands_eq : m'.operands = m.operands
  file_eq : m'.file = m.file
  raised_eq : m'.raised = []
  current : m'.current = m.current ∨ m'.current = Scopes.root

/-- A machine is sound without its errors too. -/
theorem sound_without_errors {m : Machine} (hm : m.Sound) :
    ({ m with raised := [] } : Machine).Sound :=
  ⟨hm.nested, hm.current_lt, fun _ hd => absurd hd List.not_mem_nil⟩

/-- Every statement that comes to an end leaves a tidy machine, and reports genuine errors only. -/
theorem execute_tidied {n : Nat} {s : Statement} {m m' : Machine}
    {r : Except (List Diagnostic) Value} (hm : m.Sound) (h : execute n s m = .ok r m') :
    Tidied m m' ∧ ∀ ds, r = .error ds → ∀ d ∈ ds, d.Genuine := by
  obtain ⟨hend, hreturned⟩ := refuseReturn_ending n s (sound_without_errors hm)
  rw [execute_apply] at h
  unfold observe at h
  match hx : refuseReturn (Eval.run n (.statement s)) { m with raised := [] } with
  | .ok v m₁ =>
    rw [hx] at h hend
    obtain ⟨hf, hc, ho⟩ := hend
    cases h
    refine ⟨⟨sound_without_errors hf.is_sound, ho, hf.file_eq, rfl, .inl hc⟩, ?_⟩
    intro ds hds d hd
    refine hf.is_sound.genuine d ?_
    revert hds
    cases hr : m₁.raised with
    | nil =>
      intro hds
      cases hds
    | cons e es =>
      intro hds
      cases hds
      exact hd
  | .error (.raised d) m₁ =>
    rw [hx] at h hend
    obtain ⟨hf, ho, hrecorded⟩ := hend
    have hroot := lt_of_lt_of_le hm.nested.root_lt hf.grown.size_le
    have hops : m₁.operands.unwindTo m.operands.height = m.operands := by
      rw [ho]
      exact Operands.unwindTo_pushAll m.operands []
    cases h
    refine ⟨⟨sound_without_errors (hf.move hroot _).is_sound, hops, hf.file_eq, rfl, .inr rfl⟩, ?_⟩
    intro ds hds e he
    refine hf.is_sound.genuine e ?_
    cases hr : m₁.raised with
    | nil =>
      rw [hr] at hrecorded
      cases hrecorded
    | cons d₁ ds₁ =>
      rw [hr] at hds
      cases hds
      exact he
  | .error (.returned pos) m₁ => exact absurd hx (hreturned pos m₁)
  | .error (.exited code) m₁ =>
    rw [hx] at h
    cases h
  | .error (.awaiting q) m₁ =>
    rw [hx] at h
    cases h
  | .error .exhausted m₁ =>
    rw [hx] at h
    cases h

/-! ## Other work of a session -/

/-- A step of a session that comes to its end hands its result to the next one. -/
theorem bind_of_ok {α β : Type} {x : SessionM α} {f : α → SessionM β} {m m' : Machine} {a : α}
    (h : x m = .ok a m') : (x >>= f) m = f a m' := by
  change EStateM.bind x f m = _
  unfold EStateM.bind
  rw [h]

/-- If two steps of a session come to an end, both do. -/
theorem exists_of_bind {α β : Type} {x : SessionM α} {f : α → SessionM β} {m m' : Machine} {b : β}
    (h : (x >>= f) m = .ok b m') : ∃ a m₁, x m = .ok a m₁ ∧ f a m₁ = .ok b m' := by
  change EStateM.bind x f m = _ at h
  unfold EStateM.bind at h
  cases hx : x m with
  | ok a m₁ =>
    rw [hx] at h
    exact ⟨a, m₁, rfl, h⟩
  | error e m₁ =>
    rw [hx] at h
    cases h

/-- A session goes on after a value, an error or a `return`. -/
theorem observe_cases {α : Type} {x : Eval α} {m m' : Machine} {r : Except Interruption α}
    (h : observe x m = .ok r m') :
    (∃ a, r = .ok a ∧ x m = .ok a m') ∨
      (∃ d, r = .error (.raised d) ∧ x m = .error (.raised d) m') ∨
      ∃ pos, r = .error (.returned pos) ∧ x m = .error (.returned pos) m' := by
  unfold observe at h
  match hx : x m with
  | .ok a m₁ =>
    rw [hx] at h
    cases h
    exact .inl ⟨a, rfl, rfl⟩
  | .error (.raised d) m₁ =>
    rw [hx] at h
    cases h
    exact .inr (.inl ⟨d, rfl, rfl⟩)
  | .error (.returned pos) m₁ =>
    rw [hx] at h
    cases h
    exact .inr (.inr ⟨pos, rfl, rfl⟩)
  | .error (.exited _) m₁ | .error (.awaiting _) m₁ | .error .exhausted m₁ =>
    rw [hx] at h
    cases h

/-- What a session observes leaves a sound machine behind. -/
theorem sound_of_observe {α : Type} {n : Nat} {x : Eval α} (hx : Eval.Kept (Eval.run n) x x)
    {m m' : Machine} {r : Except Interruption α} (hm : m.Sound) (h : observe x m = .ok r m') :
    m'.Sound := by
  have hend := (hx m hm).ending
  rcases observe_cases h with ⟨a, -, hres⟩ | ⟨d, -, hres⟩ | ⟨pos, -, hres⟩
  · rw [hres] at hend
    exact hend.1.is_sound
  · rw [hres] at hend
    exact hend.1.is_sound
  · rw [hres] at hend
    exact hend.1.is_sound

end Session

end ProtoScript
