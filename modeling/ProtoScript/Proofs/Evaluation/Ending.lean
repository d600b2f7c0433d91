import ProtoScript.Eval.Message
import ProtoScript.Proofs.Heap.Lengthening
import ProtoScript.Proofs.Scope.Nesting

/-!
# How evaluations end

What the evaluator promises about the machine, for each of the ways in which an evaluation can end.
A value or an error leaves the operands as they were, and the error has been recorded; a `return`
leaves exactly one value more, the one that is returned.  A value leaves the current scope as it was;
a `return` leaves one that stands inside it, since blocks that were open are not closed on the way
out.  This is `Ending`.

The rules of the evaluator are functions of `self`, which does the work inside them, and they are
reasoned about in the same way: `Kept self x y` says that the computation `x`, made from `self`, keeps
the promise from every sound machine, that `y`, made in the same way from another function, cannot be
told from `x` there, and that a `return` only comes out of `x` when it comes out of a piece of work
that `self` did with the same operands.  The second part lets us show that no work is ever done from
a machine in disorder, the third one lets us follow a returned value to the statement that returned
it.  All three are closed under sequencing, so most rules satisfy them for the simple reason that
their steps do.
-/

namespace ProtoScript

/-! ## Problems that a sound machine never meets -/

/-- The problems that stand for a machine in disorder rather than for a mistake of the program. -/
def Problem.isInternal : Problem → Bool
  | .operandsExhausted | .rootScopeClosed => true
  | _ => false

/-- A diagnostic about a mistake of the program. -/
def Diagnostic.Genuine (d : Diagnostic) : Prop :=
  ∃ (p : Problem) (file : String) (pos : Position),
    p.isInternal = false ∧ d = p.diagnostic file pos

/-! ## The promise -/

namespace Machine

/-- The scopes are nested, the current one is one of them, and the errors so far are genuine. -/
structure Sound (m : Machine) : Prop where
  nested : m.scopes.Nested
  current_lt : m.current.index < m.scopes.scopes.size
  genuine : ∀ d ∈ m.raised, d.Genuine

/-- What holds between the machines before and after an evaluation, however it ends: the second one is
sound, the scopes have only grown, and errors are attributed to the same file.  New names are those of
the current scope and of new scopes, and no array has become shorter. -/
structure Follows (m m' : Machine) : Prop where
  is_sound : m'.Sound
  grown : m.scopes.Grown m'.scopes
  file_eq : m'.file = m.file
  bindsOnly : m.scopes.BindsOnly m.current m'.scopes
  lengthened : m.heap.Lengthened m'.heap

/-- Two machines that differ in the heap, the bindings of the current scope and the world only. -/
structure Alike (m m' : Machine) : Prop where
  size_eq : m'.scopes.scopes.size = m.scopes.scopes.size
  parent?_eq : ∀ r, m'.scopes.parent? r = m.scopes.parent? r
  current_eq : m'.current = m.current
  operands_eq : m'.operands = m.operands
  raised_eq : m'.raised = m.raised
  file_eq : m'.file = m.file
  bindsOnly : m.scopes.BindsOnly m.current m'.scopes
  lengthened : m.heap.Lengthened m'.heap

/-- Every machine follows itself. -/
theorem Follows.refl {m : Machine} (h : m.Sound) : m.Follows m :=
  ⟨h, .refl _, rfl, .refl _ _, .refl _⟩

/-- What follows a follower follows, if that one is in the same scope or in a new one. -/
theorem Follows.trans_of {m m₁ m₂ : Machine} (h₁ : m.Follows m₁)
    (hc : m₁.current = m.current ∨ m.scopes.scopes.size ≤ m₁.current.index) (h₂ : m₁.Follows m₂) :
    m.Follows m₂ :=
  ⟨h₂.is_sound, h₁.grown.trans h₂.grown, h₂.file_eq.trans h₁.file_eq,
    h₁.bindsOnly.trans h₁.grown.size_le h₂.bindsOnly hc, h₁.lengthened.trans h₂.lengthened⟩

/-- What follows a follower in the same scope follows. -/
theorem Follows.trans {m m₁ m₂ : Machine} (h₁ : m.Follows m₁) (hc : m₁.current = m.current)
    (h₂ : m₁.Follows m₂) : m.Follows m₂ :=
  h₁.trans_of (.inl hc) h₂

/-- Going to another scope, and changing the operands, does not affect what follows. -/
theorem Follows.move {m m' : Machine} (h : m.Follows m') {r : ScopeRef}
    (hr : r.index < m'.scopes.scopes.size) (s : Operands) :
    m.Follows { m' with current := r, operands := s } :=
  ⟨⟨h.is_sound.nested, hr, h.is_sound.genuine⟩, h.grown, h.file_eq, h.bindsOnly, h.lengthened⟩

/-- What follows a machine follows it with other operands too. -/
theorem Follows.of_operands {m m' : Machine} {s : Operands}
    (h : ({ m with operands := s } : Machine).Follows m') : m.Follows m' :=
  ⟨h.is_sound, h.grown, h.file_eq, h.bindsOnly, h.lengthened⟩

/-- A machine that follows still does after a genuine problem was recorded. -/
theorem Follows.raise {m m' : Machine} (h : m.Follows m') {p : Problem} (hp : p.isInternal = false)
    (pos : Position) :
    m.Follows { m' with raised := m'.raised ++ [p.diagnostic m'.file pos] } := by
  refine ⟨⟨h.is_sound.nested, h.is_sound.current_lt, ?_⟩, h.grown, h.file_eq, h.bindsOnly,
    h.lengthened⟩
  intro d hd
  rcases List.mem_append.mp hd with hd | hd
  · exact h.is_sound.genuine d hd
  · exact ⟨p, m'.file, pos, hp, List.mem_singleton.mp hd⟩

/-- A machine differs in nothing from itself. -/
theorem Alike.refl (m : Machine) : m.Alike m :=
  ⟨rfl, fun _ => rfl, rfl, rfl, rfl, rfl, .refl _ _, .refl _⟩

/-- A machine with another heap differs in nothing else, if no array is shorter there. -/
theorem Alike.of_heap (m : Machine) {h : Heap} (hl : m.heap.Lengthened h) :
    m.Alike { m with heap := h } :=
  ⟨rfl, fun _ => rfl, rfl, rfl, rfl, rfl, .refl _ _, hl⟩

/-- A machine that differs from a sound one in nothing that matters is sound. -/
theorem Alike.is_sound {m m' : Machine} (h : m.Alike m') (hm : m.Sound) : m'.Sound := by
  refine ⟨hm.nested.of_same h.size_eq h.parent?_eq, ?_, ?_⟩
  · rw [h.current_eq, h.size_eq]
    exact hm.current_lt
  · rw [h.raised_eq]
    exact hm.genuine

/-- A machine that differs in nothing that matters follows. -/
theorem Alike.follows {m m' : Machine} (h : m.Alike m') (hm : m.Sound) : m.Follows m' :=
  ⟨h.is_sound hm, .of_same h.size_eq h.parent?_eq, h.file_eq, h.bindsOnly, h.lengthened⟩

end Machine

namespace Eval

/-- What an evaluation that starts from a machine promises about its result.  Nothing is promised if
the whole program ends, or if the evaluation was cut off. -/
def Ending {α : Type} (m : Machine) : EStateM.Result Interruption Machine α → Prop
  | .ok _ m' => m.Follows m' ∧ m'.current = m.current ∧ m'.operands = m.operands
  | .error (.raised d) m' => m.Follows m' ∧ m'.operands = m.operands ∧ d ∈ m'.raised
  | .error (.returned _) m' =>
    m.Follows m' ∧ m'.scopes.Within m'.current m.current ∧ ∃ v, m'.operands = m.operands.push v
  | .error _ _ => True

/-- What comes after a step that ended with a value promises the same for both together. -/
theorem Ending.trans {α : Type} {m m₁ : Machine} {r : EStateM.Result Interruption Machine α}
    (hf : m.Follows m₁) (hc : m₁.current = m.current) (ho : m₁.operands = m.operands)
    (h : Ending m₁ r) : Ending m r := by
  match r, h with
  | .ok _ m₂, ⟨hf₂, hc₂, ho₂⟩ => exact ⟨hf.trans hc hf₂, hc₂.trans hc, ho₂.trans ho⟩
  | .error (.raised _) m₂, ⟨hf₂, ho₂, hd⟩ => exact ⟨hf.trans hc hf₂, ho₂.trans ho, hd⟩
  | .error (.returned _) m₂, ⟨hf₂, hw, v, hv⟩ =>
    refine ⟨hf.trans hc hf₂, ?_, v, ?_⟩
    · rw [← hc]
      exact hw
    · rw [← ho]
      exact hv
  | .error (.exited _) _, _ => trivial
  | .error (.awaiting _) _, _ => trivial
  | .error .exhausted _, _ => trivial

/-- The `return` at a place came out of work that `self` did with the operands of `m`, and left the
operands of `m'`. -/
def ReturnsFrom (self : Work → Eval Value) (m : Machine) (pos : Position) (m' : Machine) : Prop :=
  ∃ w m₁ m₂, m₁.Sound ∧ m₁.operands = m.operands ∧ self w m₁ = .error (.returned pos) m₂ ∧
    m₂.operands = m'.operands

/-- Work that is done in one of two ways comes to the same from every sound machine, and ends as
promised. -/
structure Trusted (doing other : Work → Eval Value) : Prop where
  agree : ∀ w m, m.Sound → doing w m = other w m
  ending : ∀ w m, m.Sound → Ending m (doing w m)

/-- From one machine, a computation made from `self` ends as promised, agrees with one made from
another function, and hands on the returns of `self` only. -/
structure KeptAt {α : Type} (doing : Work → Eval Value) (m : Machine) (x y : Eval α) : Prop where
  agree : x m = y m
  ending : Ending m (x m)
  source : ∀ pos m', x m = .error (.returned pos) m' → ReturnsFrom doing m pos m'

/-- A computation keeps the promise from every sound machine. -/
def Kept {α : Type} (doing : Work → Eval Value) (x y : Eval α) : Prop :=
  ∀ m, m.Sound → KeptAt doing m x y

/-! ## Sequencing -/

/-- Running two steps one after the other. -/
theorem bind_apply {α β : Type} (x : Eval α) (f : α → Eval β) (m : Machine) :
    (x >>= f) m =
      match x m with
      | .ok a m' => f a m'
      | .error e m' => .error e m' := by
  change EStateM.bind x f m = _
  unfold EStateM.bind
  cases x m <;> rfl

/-- A step that ends with a value hands it to the next step. -/
theorem bind_of_ok {α β : Type} {x : Eval α} {f : α → Eval β} {m m' : Machine} {a : α}
    (h : x m = .ok a m') : (x >>= f) m = f a m' := by
  rw [bind_apply, h]

/-- A step that is interrupted interrupts what comes after it. -/
theorem bind_of_error {α β : Type} {x : Eval α} {f : α → Eval β} {m m' : Machine}
    {e : Interruption} (h : x m = .error e m') : (x >>= f) m = .error e m' := by
  rw [bind_apply, h]

/-- Looking at the machine hands it to the next step. -/
theorem get_bind {β : Type} (f : Machine → Eval β) (m : Machine) :
    ((MonadState.get : Eval Machine) >>= f) m = f m m := rfl

/-- If two steps end with a value, both do. -/
theorem exists_of_bind_ok {α β : Type} {x : Eval α} {f : α → Eval β} {m m' : Machine} {b : β}
    (h : (x >>= f) m = .ok b m') : ∃ a m₁, x m = .ok a m₁ ∧ f a m₁ = .ok b m' := by
  cases hx : x m with
  | ok a m₁ => exact ⟨a, m₁, rfl, (bind_of_ok hx).symm.trans h⟩
  | error e m₁ =>
    rw [bind_of_error hx] at h
    cases h

/-- Returns come from `self` also when steps without a `return` come before. -/
theorem ReturnsFrom.of_operands {self : Work → Eval Value} {m m₁ : Machine} {pos : Position}
    {m' m₁' : Machine} (h : ReturnsFrom self m₁ pos m₁') (ho : m₁.operands = m.operands)
    (ho' : m₁'.operands = m'.operands) : ReturnsFrom self m pos m' := by
  obtain ⟨w, m₂, m₃, hs, hops, hself, hres⟩ := h
  exact ⟨w, m₂, m₃, hs, hops.trans ho, hself, hres.trans ho'⟩

/-- What is promised after steps that ended with a value is promised for all of them. -/
theorem KeptAt.of_step {α : Type} {self : Work → Eval Value} {m m₁ : Machine}
    {x y x₁ y₁ : Eval α} (hx : x m = x₁ m₁) (hy : y m = y₁ m₁) (hfol : m.Follows m₁)
    (hc : m₁.current = m.current) (ho : m₁.operands = m.operands) (h : KeptAt self m₁ x₁ y₁) :
    KeptAt self m x y := by
  refine ⟨?_, ?_, ?_⟩
  · rw [hx, hy]
    exact h.agree
  · rw [hx]
    exact Ending.trans hfol hc ho h.ending
  · intro pos m' hret
    rw [hx] at hret
    exact (h.source pos m' hret).of_operands ho rfl

/-- An interruption of the first step is one of the whole sequence. -/
theorem KeptAt.of_error {α β : Type} {self : Work → Eval Value} {m m₁ : Machine} {e : Interruption}
    {x y : Eval α} {x₁ y₁ : Eval β} (h : KeptAt self m x₁ y₁) (he : x₁ m = .error e m₁)
    (hx : x m = .error e m₁) (hy : y m = .error e m₁) : KeptAt self m x y := by
  have hend := h.ending
  rw [he] at hend
  refine ⟨hx.trans hy.symm, ?_, ?_⟩
  · rw [hx]
    cases e <;> exact hend
  · intro pos m' hret
    rw [hx] at hret
    cases hret
    exact h.source pos m₁ he

/-- Sequences keep the promise from a machine if the first step does, and the second one does from
wherever the first one ends. -/
theorem KeptAt.bind {α β : Type} {self : Work → Eval Value} {m : Machine} {x y : Eval α}
    {f g : α → Eval β} (hx : KeptAt self m x y)
    (hf : ∀ a m₁, x m = .ok a m₁ → m.Follows m₁ → m₁.current = m.current →
      m₁.operands = m.operands → KeptAt self m₁ (f a) (g a)) :
    KeptAt self m (x >>= f) (y >>= g) := by
  cases h : x m with
  | ok a m₁ =>
    have hend := hx.ending
    rw [h] at hend
    obtain ⟨hfol, hc, ho⟩ := hend
    exact (hf a m₁ h hfol hc ho).of_step (bind_of_ok h) (bind_of_ok (hx.agree.symm.trans h))
      hfol hc ho
  | error e m₁ =>
    exact hx.of_error h (bind_of_error h) (bind_of_error (hx.agree.symm.trans h))

namespace Kept

variable {α β : Type} {self other : Work → Eval Value}

/-- Sequences keep the promise if their steps do, where the second step may rely on what is known
about the values of the first one. -/
theorem bind_of {x y : Eval α} {f g : α → Eval β} {P : α → Prop} (hx : Kept self x y)
    (hP : ∀ m a m', x m = .ok a m' → P a) (hf : ∀ a, P a → Kept self (f a) (g a)) :
    Kept self (x >>= f) (y >>= g) := by
  intro m hm
  exact (hx m hm).bind fun a m₁ h hfol _ _ => hf a (hP m a m₁ h) m₁ hfol.is_sound

/-- Sequences keep the promise if their steps do. -/
theorem bind {x y : Eval α} {f g : α → Eval β} (hx : Kept self x y)
    (hf : ∀ a, Kept self (f a) (g a)) : Kept self (x >>= f) (y >>= g) :=
  hx.bind_of (fun _ _ _ _ => trivial) fun a _ => hf a

/-- A computation that only ends with values, and changes nothing that matters, keeps the promise. -/
theorem of_alike {x : Eval α} (h : ∀ m, ∃ a m', x m = .ok a m' ∧ m.Alike m') : Kept self x x := by
  intro m hm
  obtain ⟨a, m', hx, halike⟩ := h m
  refine ⟨rfl, ?_, ?_⟩
  · rw [hx]
    exact ⟨halike.follows hm, halike.current_eq, halike.operands_eq⟩
  · intro pos m₁ hret
    rw [hx] at hret
    cases hret

/-- Yielding a value keeps the promise. -/
theorem pure (a : α) : Kept self (Pure.pure a) (Pure.pure a) :=
  of_alike fun m => ⟨a, m, rfl, .refl m⟩

/-- A function of the result changes nothing about the promise. -/
theorem map {x y : Eval α} (f : α → β) (hx : Kept self x y) : Kept self (f <$> x) (f <$> y) := by
  have hmap : ∀ z : Eval α, f <$> z = z >>= fun a => Pure.pure (f a) := fun z => by
    funext m
    rw [bind_apply]
    change EStateM.map f z m = _
    unfold EStateM.map
    cases z m <;> rfl
  rw [hmap, hmap]
  exact hx.bind fun a => .pure (f a)

/-- Forgetting a result changes nothing about the promise. -/
theorem discard {x y : Eval α} (hx : Kept self x y) :
    Kept self (Functor.discard x) (Functor.discard y) :=
  hx.map _

/-- A choice keeps the promise if both sides do. -/
theorem ite {c : Prop} [Decidable c] {x₁ y₁ x₂ y₂ : Eval α} (h₁ : Kept self x₁ y₁)
    (h₂ : Kept self x₂ y₂) : Kept self (if c then x₁ else x₂) (if c then y₁ else y₂) := by
  split
  · exact h₁
  · exact h₂

/-- Work that `self` does keeps the promise. -/
theorem work (h : Trusted self other) (w : Work) : Kept self (self w) (other w) := by
  intro m hm
  exact ⟨h.agree w m hm, h.ending w m hm, fun _ m' hret => ⟨w, m, m', hm, rfl, hret, rfl⟩⟩

/-- An interruption about which nothing is promised keeps the promise. -/
theorem of_error {x : Eval α} {e : Interruption} (h : ∀ m, x m = .error e m)
    (hraised : ∀ d, e ≠ .raised d) (hreturned : ∀ pos, e ≠ .returned pos) : Kept self x x := by
  intro m _
  refine ⟨rfl, ?_, ?_⟩
  · rw [h m]
    cases e with
    | raised d => exact absurd rfl (hraised d)
    | returned pos => exact absurd rfl (hreturned pos)
    | _ => trivial
  · intro pos m' hx
    rw [h m] at hx
    cases hx
    exact absurd rfl (hreturned pos)

end Kept

end Eval

end ProtoScript
