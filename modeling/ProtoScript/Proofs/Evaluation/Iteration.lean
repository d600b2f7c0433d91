import ProtoScript.Proofs.Evaluation.Boxes
import ProtoScript.Proofs.Evaluation.Parameters
import ProtoScript.Proofs.Scope.Frames

/-!
# Loops over arrays

A loop over an array hands the elements to a function, one index after the other.  The array may change
meanwhile, for the function may do anything: the element at an index is read when its turn comes, and so
is the length.  `Visits call a limit i m calls r` lists the calls that the loop makes from the index `i`
on, each with the machine on which it is made, up to the result `r` of the loop.  A loop ends after as
many calls as the array has elements by then, since no array ever gets shorter.

The body of a `for` statement is a procedure that is called in this way.  Each of its calls begins in a
scope of its own inside the scope of the statement, and leaves the scopes around it with the names they
had, so that names are found in one round as they were found when the loop began.
-/

namespace ProtoScript

namespace Eval

/-! ## The calls of a loop -/

/-- The calls that a loop over an array makes from an index on, and the result of the loop.  After
`limit` calls the loop is cut off. -/
inductive Visits (call : Value → Eval Value) (a : ArrayRef) (limit : Nat) :
    Nat → Machine → List (Machine × Value) → EStateM.Result Interruption Machine Value → Prop
  /-- As many elements were visited as there are. -/
  | finished {i : Nat} {m : Machine} (hi : i < limit) (hsize : (m.heap.elements a).size = i) :
    Visits call a limit i m [] (.ok .null m)
  /-- The call with the element that is at the index now comes to its end, and the loop goes on. -/
  | visited {i : Nat} {m m₁ : Machine} {v w : Value} {calls : List (Machine × Value)}
    {r : EStateM.Result Interruption Machine Value} (hi : i < limit)
    (hv : (m.heap.elements a)[i]? = some v) (hcall : call v m = .ok w m₁)
    (hrest : Visits call a limit (i + 1) m₁ calls r) : Visits call a limit i m ((m, v) :: calls) r
  /-- The call with the element that is at the index now is interrupted, and so is the loop. -/
  | interrupted {i : Nat} {m m₁ : Machine} {v : Value} {e : Interruption} (hi : i < limit)
    (hv : (m.heap.elements a)[i]? = some v) (hcall : call v m = .error e m₁) :
    Visits call a limit i m [(m, v)] (.error e m₁)
  | cutOff {m : Machine} : Visits call a limit limit m [] (.error .exhausted m)

namespace Visits

variable {call : Value → Eval Value} {a : ArrayRef} {limit i : Nat} {m : Machine}
  {calls : List (Machine × Value)} {r : EStateM.Result Interruption Machine Value}

/-- The calls are made with the elements at one index after the other, each as it is at that moment. -/
theorem getElem?_eq (h : Visits call a limit i m calls r) {k : Nat} {before : Machine} {v : Value}
    (hk : calls[k]? = some (before, v)) : (before.heap.elements a)[i + k]? = some v := by
  induction h generalizing k with
  | finished | cutOff => cases hk
  | visited _ hv _ _ ih =>
    cases k with
    | zero =>
      cases hk
      exact hv
    | succ k =>
      rw [← Nat.succ_add_eq_add_succ]
      exact ih hk
  | interrupted _ hv _ =>
    cases k with
    | zero =>
      cases hk
      exact hv
    | succ k => cases hk

/-- If a loop comes to its end, it has visited as many elements as there are then. -/
theorem length_eq (h : Visits call a limit i m calls r) {w : Value} {m' : Machine}
    (hr : r = .ok w m') : w = .null ∧ i + calls.length = (m'.heap.elements a).size := by
  induction h with
  | finished _ hsize =>
    cases hr
    exact ⟨rfl, hsize.symm⟩
  | visited _ _ _ _ ih =>
    obtain ⟨hw, hlength⟩ := ih hr
    refine ⟨hw, ?_⟩
    rw [List.length_cons, ← hlength]
    omega
  | interrupted | cutOff => cases hr

/-- After a call that is interrupted no other call is made, and the loop is interrupted in the same
way. -/
theorem interrupted_eq (h : Visits call a limit i m calls r) {k : Nat} {before m' : Machine}
    {v : Value} {e : Interruption} (hk : calls[k]? = some (before, v))
    (hcall : call v before = .error e m') : r = .error e m' ∧ calls.length = k + 1 := by
  induction h generalizing k with
  | finished | cutOff => cases hk
  | visited _ _ hok _ ih =>
    cases k with
    | zero =>
      cases hk
      rw [hok] at hcall
      cases hcall
    | succ k =>
      obtain ⟨hr, hlength⟩ := ih hk
      exact ⟨hr, congrArg Nat.succ hlength⟩
  | interrupted _ _ herror =>
    cases k with
    | zero =>
      cases hk
      rw [herror] at hcall
      cases hcall
      exact ⟨rfl, rfl⟩
    | succ k => cases hk

/-- A loop is interrupted by its last call, or cut off after as many calls as are allowed. -/
theorem error_cases (h : Visits call a limit i m calls r) {e : Interruption} {m' : Machine}
    (hr : r = .error e m') :
    (∃ before v, calls.getLast? = some (before, v) ∧ call v before = .error e m') ∨
      e = .exhausted ∧ i + calls.length = limit := by
  induction h with
  | finished => cases hr
  | visited _ _ _ _ ih =>
    rcases ih hr with ⟨before, v, hlast, hcall⟩ | ⟨he, hlength⟩
    · exact .inl ⟨before, v, by rw [List.getLast?_cons, hlast, Option.getD_some], hcall⟩
    · refine .inr ⟨he, ?_⟩
      rw [List.length_cons, ← hlength]
      omega
  | interrupted _ _ hcall =>
    cases hr
    exact .inl ⟨_, _, rfl, hcall⟩
  | cutOff =>
    cases hr
    exact .inr ⟨rfl, rfl⟩

/-- What every call keeps holds of the machines of all calls. -/
theorem forall_mem {P : Machine → Prop} (h : Visits call a limit i m calls r)
    (hP : ∀ m v w m', P m → call v m = .ok w m' → P m') (hm : P m) :
    ∀ before v, (before, v) ∈ calls → P before := by
  induction h with
  | finished | cutOff => exact fun _ _ hmem => absurd hmem List.not_mem_nil
  | visited _ _ hcall _ ih =>
    intro before v hmem
    rcases List.mem_cons.mp hmem with heq | hmem
    · cases heq
      exact hm
    · exact ih (hP _ _ _ _ hm hcall) before v hmem
  | interrupted =>
    intro before v hmem
    cases List.mem_singleton.mp hmem
    exact hm

end Visits

/-! ## The native loop -/

section

variable {self other : Work → Eval Value} {callback : Value} {a : ArrayRef} {pos : Position}

/-- The function is called with the element at the index, if there is one. -/
theorem iterateFrom_succ (self : Work → Eval Value) (callback : Value) (a : ArrayRef) (pos : Position)
    (fuel i : Nat) (m : Machine) :
    iterateFrom self callback a pos (fuel + 1) i m =
      match (m.heap.elements a)[i]? with
      | none => .ok .null m
      | some v =>
        match self (.call callback none [v] pos) m with
        | .ok _ m₁ => iterateFrom self callback a pos fuel (i + 1) m₁
        | .error e m₁ => .error e m₁ := by
  rw [iterateFrom, get_bind]
  cases (m.heap.elements a)[i]? with
  | none => rfl
  | some v =>
    dsimp only
    cases hcall : self (.call callback none [v] pos) m with
    | ok w m₁ => exact bind_of_ok (discard_of_ok hcall)
    | error e m₁ => exact bind_of_error (discard_of_error hcall)

/-- The loop visits the elements. -/
theorem iterateFrom_visits (h : Trusted self other) (callback : Value) (a : ArrayRef) (pos : Position)
    {fuel i limit : Nat} (hlimit : i + fuel = limit) {m : Machine} (hm : m.Sound)
    (hi : i ≤ (m.heap.elements a).size) :
    ∃ calls, Visits (fun v => self (.call callback none [v] pos)) a limit i m calls
      (iterateFrom self callback a pos fuel i m) := by
  induction fuel generalizing i m with
  | zero =>
    subst hlimit
    exact ⟨[], .cutOff⟩
  | succ fuel ih =>
    have hlt : i < limit := by omega
    rw [iterateFrom_succ]
    cases hv : (m.heap.elements a)[i]? with
    | none => exact ⟨[], .finished hlt (Nat.le_antisymm (Array.getElem?_eq_none_iff.mp hv) hi)⟩
    | some v =>
      have hend := h.ending (.call callback none [v] pos) m hm
      dsimp only
      cases hcall : self (.call callback none [v] pos) m with
      | error e m₁ => exact ⟨_, .interrupted hlt hv hcall⟩
      | ok w m₁ =>
        rw [hcall] at hend
        -- the array has not become shorter, so that the next index is not past its end
        have hlonger := hend.1.lengthened a
        obtain ⟨hsize, -⟩ := Array.getElem?_eq_some_iff.mp hv
        obtain ⟨calls, hrest⟩ := ih (by omega) hend.1.is_sound (Nat.le_trans hsize hlonger)
        exact ⟨_, .visited hlt hv hcall hrest⟩

/-- Nothing but the calls that are listed matters to a loop. -/
theorem iterateFrom_of_visits {call : Value → Eval Value} {limit i : Nat} {m : Machine}
    {calls : List (Machine × Value)} {r : EStateM.Result Interruption Machine Value}
    (h : Visits call a limit i m calls r)
    (hsame : ∀ before v, (before, v) ∈ calls →
      self (.call callback none [v] pos) before = call v before)
    {fuel : Nat} (hlimit : i + fuel = limit) : iterateFrom self callback a pos fuel i m = r := by
  induction h generalizing fuel with
  | cutOff =>
    obtain rfl : fuel = 0 := by omega
    rfl
  | finished hi hsize =>
    obtain ⟨fuel, rfl⟩ : ∃ n, fuel = n + 1 := ⟨fuel - 1, by omega⟩
    rw [iterateFrom_succ, Array.getElem?_eq_none (Nat.le_of_eq hsize)]
  | visited hi hv hcall _ ih =>
    obtain ⟨fuel, rfl⟩ : ∃ n, fuel = n + 1 := ⟨fuel - 1, by omega⟩
    rw [iterateFrom_succ, hv]
    dsimp only
    rw [hsame _ _ List.mem_cons_self, hcall]
    exact ih (fun before v hmem => hsame before v (List.mem_cons_of_mem _ hmem)) (by omega)
  | interrupted hi hv hcall =>
    obtain ⟨fuel, rfl⟩ : ∃ n, fuel = n + 1 := ⟨fuel - 1, by omega⟩
    rw [iterateFrom_succ, hv]
    dsimp only
    rw [hsame _ _ List.mem_cons_self, hcall]

/-- `iterate` is the loop over the array that its receiver holds. -/
theorem callNative_iterate (self : Work → Eval Value) (n : Nat) {o : ObjectRef} {m : Machine}
    (harray : m.heap.unwrap (.object o) = .array a) (callback : Value) (pos : Position) :
    callNative n self .iterate ⟨some o, [callback], pos⟩ m =
      iterateFrom self callback a pos n 0 m := by
  have hreceiver : arrayReceiver ⟨some o, [callback], pos⟩ m = .ok a m :=
    arrayReceiver_of_unwrap harray
  exact bind_of_ok hreceiver

end

/-! ## The body of a `for` statement -/

/-- A procedure that is entered binds names in its own scope only. -/
theorem retained_of_enter {n : Nat} {p : Procedure} {values : List Value}
    {types : List (Option ObjectRef)} {pos : Position} (htakes : p.Takes values.length)
    (htypes : types.length = p.fixed.length) {m m' : Machine} (hm : m.Sound) {w : Value}
    (hok : enter (run n) p values.length types m.operands.height pos (supplied m values) =
      .ok w m') : m.scopes.Retained m'.scopes := by
  have hending := activation_ending_supplied n pos htakes htypes hm
  have hconcludes := enter_concludes n pos htakes htypes hm
  have hafter {s : Machine} (hf : (opened (supplied m values)).Follows s) :
      m.scopes.Retained s.scopes :=
    (m.scopes.retained_addChild m.current).of_bindsOnly hf.grown hf.bindsOnly (Nat.le_refl _)
  rw [hok] at hconcludes
  generalize activation (run n) p values.length types pos (opened (supplied m values)) = result
    at hending hconcludes
  cases hconcludes with
  | @finished s => exact hafter (s := s) hending.1
  | @returned s => exact hafter (s := s) hending.1

/-- Where a body begins, the machine is sound. -/
theorem sound_began {m : Machine} (hm : m.Sound) (p : Procedure) (types : List (Option ObjectRef))
    (values : List Value) : (began p types values m).Sound := by
  have hopened := (follows_opened hm).is_sound
  have hsize : (began p types values m).scopes.scopes.size = (opened m).scopes.scopes.size :=
    Scopes.size_supply ..
  refine ⟨hopened.nested.of_same hsize fun r => Scopes.parent?_supply .., ?_, hm.genuine⟩
  rw [hsize]
  exact current_lt_opened m

/-- The procedure that is called in each round of a `for` statement. -/
def loopBody (name : String) (namePos : Position) (body : Block) (pos : Position)
    (origin : Origin) : Procedure :=
  ⟨[⟨name, none, namePos⟩], none, body, pos, origin⟩

section

variable {name : String} {namePos : Position} {body : Block} {bodyPos : Position} {origin : Origin}

/-- A round of a `for` statement enters the body with one value. -/
theorem run_loopBody (n : Nat) (v : Value) (pos : Position) (m : Machine) :
    run (n + 1) (.call (.procedure (loopBody name namePos body bodyPos origin)) none [v] pos) m =
      enter (run n) (loopBody name namePos body bodyPos origin) [v].length [none] m.operands.height pos
        (supplied m [v]) := by
  have hsuits : Suits (run n) (loopBody name namePos body bodyPos origin) [v] m [none] m :=
    ⟨m, .untyped rfl .nil, rfl⟩
  have hvalues : [v] = ((none : Option ObjectRef).map Value.object).toList ++ [v] := rfl
  exact callProcedure_of_suits hvalues (.inl ⟨rfl, rfl⟩) hsuits pos

/-- Where a round begins, the name of the loop is bound to a new variable that holds the element, and every
other name is found as it is from the scope of the statement. -/
theorem find?_of_begins {v : Value} {m s : Machine} (hm : m.Sound) (hs : s.Sound)
    (hbegins : Begins (loopBody name namePos body bodyPos origin) [none] [v] m s) :
    ∃ c, m.scopes.cells.size ≤ c.index ∧ s.scopes.cell c = ⟨none, some v⟩ ∧ ∀ x,
      s.scopes.find? s.current x = if x = name then some c else m.scopes.find? m.current x := by
  obtain ⟨c, type, w, htype, hw, hc, hcell⟩ := hbegins.fixed 0 Nat.one_pos
  cases htype
  cases hw
  change s.scopes.findLocal? s.current name = some c at hc
  refine ⟨c, (hbegins.only _ c hc).1, hcell, fun x => ?_⟩
  have hsize : m.scopes.scopes.size ≤ s.scopes.scopes.size := by
    rw [← hbegins.scope_new]
    exact le_of_lt hs.current_lt
  have hretained : m.scopes.Retained s.scopes :=
    ⟨⟨hsize, fun r hr => (hbegins.bindings r hr).1⟩, fun r hr => (hbegins.bindings r hr).2⟩
  rw [Scopes.find?_eq hs.nested x hs.current_lt, hbegins.parent]
  split
  · rename_i d hd
    obtain ⟨-, q, hq, rfl⟩ := hbegins.only x d hd
    obtain rfl := List.mem_singleton.mp hq
    rw [if_pos rfl]
    exact hd.symm.trans hc
  · rename_i hnone
    rw [if_neg]
    · exact hretained.find?_eq hm.nested hs.nested x hm.current_lt
    · rintro rfl
      rw [hnone] at hc
      cases hc

/-- A round of a `for` statement, where `start` is the machine on which the loop began, `m` the one before
the round, and `s` the one on which the body begins: it begins in a new scope inside the scope of the
statement, where only the name of the loop is bound, and other names are found as they were found when
the loop began. -/
structure Round (n : Nat) (p : Procedure) (name : String) (v : Value) (pos : Position)
    (start m s : Machine) : Prop where
  current_eq : m.current = start.current
  begins : Begins p [none] [v] m s
  concludes : Concludes m (runStatements (run n) p.body.statements s)
    (run (n + 1) (.call (.procedure p) none [v] pos) m)
  visible : ∃ c, m.scopes.cells.size ≤ c.index ∧ s.scopes.cell c = ⟨none, some v⟩ ∧ ∀ x,
    s.scopes.find? s.current x = if x = name then some c else start.scopes.find? start.current x

/-- A machine between the rounds of a `for` statement. -/
structure Between (start m : Machine) : Prop where
  is_sound : m.Sound
  current_eq : m.current = start.current
  retained : start.scopes.Retained m.scopes

/-- A round leaves the scopes that were there with their names. -/
theorem Between.next {start m m' : Machine} (h : Between start m) {n : Nat} {v w : Value}
    {pos : Position}
    (hok : run (n + 1) (.call (.procedure (loopBody name namePos body bodyPos origin)) none [v] pos) m =
      .ok w m') : Between start m' := by
  have hend := (run_trusted (n + 1)).ending
    (.call (.procedure (loopBody name namePos body bodyPos origin)) none [v] pos) m h.is_sound
  rw [hok] at hend
  rw [run_loopBody] at hok
  exact ⟨hend.1.is_sound, hend.2.1.trans h.current_eq,
    h.retained.trans (retained_of_enter (.inl ⟨rfl, rfl⟩) rfl h.is_sound hok)⟩

/-- Every round goes as it should. -/
theorem Between.round {start m : Machine} (hstart : start.Sound) (h : Between start m) (n : Nat)
    (v : Value) (pos : Position) :
    ∃ s, Round n (loopBody name namePos body bodyPos origin) name v pos start m s := by
  have htakes : (loopBody name namePos body bodyPos origin).Takes [v].length := .inl ⟨rfl, rfl⟩
  have hnames : ((loopBody name namePos body bodyPos origin).parameters.map (·.name)).Nodup :=
    List.nodup_singleton name
  have htypes : ([none] : List (Option ObjectRef)).length =
      (loopBody name namePos body bodyPos origin).fixed.length := rfl
  have hbegins := begins_began htakes.le htypes hnames m
  refine ⟨_, h.current_eq, hbegins, ?_, ?_⟩
  · rw [run_loopBody, ← activation_eq_runStatements pos htakes rfl hnames]
    exact enter_concludes n pos htakes rfl h.is_sound
  · obtain ⟨c, hnew, hcell, hfind⟩ := find?_of_begins h.is_sound (sound_began h.is_sound ..) hbegins
    refine ⟨c, hnew, hcell, fun x => (hfind x).trans ?_⟩
    rw [h.current_eq, h.retained.find?_eq hstart.nested h.is_sound.nested x hstart.current_lt]

end

/-! ## The loops -/

/-- `iterate` visits the elements, and nothing but the calls that it makes matters to it. -/
theorem iterate_visits (n : Nat) {m : Machine} (hm : m.Sound) {o : ObjectRef} {a : ArrayRef}
    (harray : m.heap.unwrap (.object o) = .array a) (callback : Value) (pos : Position) :
    ∃ calls, Visits (fun v => run n (.call callback none [v] pos)) a n 0 m calls
        (run (n + 1) (.call (.native .iterate) (some o) [callback] pos) m) ∧
      ∀ other : Work → Eval Value, (∀ before v, (before, v) ∈ calls →
          other (.call callback none [v] pos) before = run n (.call callback none [v] pos) before) →
        step n other (.call (.native .iterate) (some o) [callback] pos) m =
          run (n + 1) (.call (.native .iterate) (some o) [callback] pos) m := by
  have hrun (self : Work → Eval Value) :
      step n self (.call (.native .iterate) (some o) [callback] pos) m =
        iterateFrom self callback a pos n 0 m := callNative_iterate self n harray callback pos
  obtain ⟨calls, hvisits⟩ :=
    iterateFrom_visits (run_trusted n) callback a pos (Nat.zero_add n) hm (Nat.zero_le _)
  rw [← hrun (run n)] at hvisits
  refine ⟨calls, hvisits, fun other hsame => ?_⟩
  rw [hrun other]
  exact iterateFrom_of_visits hvisits hsame (Nat.zero_add n)

/-- A `for` statement over what holds an array is the loop over that array. -/
theorem run_forIn {n : Nat} {name : String} {iterable : Expression} {p : Procedure} {pos : Position}
    {m m₁ m₂ : Machine} {v : Value} {o : ObjectRef} {a : ArrayRef}
    (hiterable : run (n + 1) (.expression iterable) m = .ok v m₁)
    (hbox : box (run (n + 1)) v pos m₁ = .ok o m₂) (hm₂ : m₂.Sound)
    (hmember : m₂.heap.lookup? o "iterate" = some (.native .iterate))
    (harray : m₂.heap.unwrap (.object o) = .array a) :
    run (n + 2) (.statement (.forIn name iterable p pos)) m =
      run (n + 1) (.call (.native .iterate) (some o) [.procedure p] pos) m₂ := by
  have hsend : send (run (n + 1)) v "iterate" [.procedure p] pos m₁ = _ :=
    send_of_lookup hbox hmember [.procedure p]
  obtain ⟨calls, hvisits, -⟩ := iterate_visits n hm₂ harray (.procedure p) pos
  change (run (n + 1) (.expression iterable) >>= _) m = _
  rw [bind_of_ok hiterable]
  cases hloop : run (n + 1) (.call (.native .iterate) (some o) [.procedure p] pos) m₂ with
  | ok w m' =>
    obtain ⟨rfl, -⟩ := hvisits.length_eq hloop
    exact bind_of_ok (discard_of_ok (hsend.trans hloop))
  | error e m' => exact bind_of_error (discard_of_error (hsend.trans hloop))

/-- **A loop visits every index of the live array once, in order.**  The calls that a loop makes are listed
by `Visits`: each is made with the element that is at its index at that moment, the indices are 0, 1, 2 and
so on, a loop that comes to its end has made as many calls as the array has elements then, and a loop
with a call that is interrupted makes no other call and is interrupted in the same way.  Nothing else
interrupts it, unless it is cut off.

So it is with `iterate`, whatever the function does, and nothing but these calls matters to it.  So it is
with a `for` statement whose value is an array or holds one, and each round runs the body in a new scope
inside the scope of the statement, where the names of earlier rounds are not found.  An array by itself
is such a value as long as the core types are as they were installed. -/
theorem loops_visit_live_array (n : Nat) :
    (∀ call a limit m calls r, Visits call a limit 0 m calls r →
      (∀ (k : Nat) (before : Machine) (v : Value), calls[k]? = some (before, v) →
        (before.heap.elements a)[k]? = some v) ∧
      (∀ w m', r = .ok w m' → calls.length = (m'.heap.elements a).size) ∧
      (∀ (k : Nat) (before : Machine) (v : Value) e m', calls[k]? = some (before, v) →
        call v before = .error e m' → r = .error e m' ∧ calls.length = k + 1) ∧
      ∀ e m', r = .error e m' →
        (∃ before v, calls.getLast? = some (before, v) ∧ call v before = .error e m') ∨
          e = .exhausted ∧ calls.length = limit) ∧
    (∀ m o a callback pos, m.Sound → m.heap.unwrap (.object o) = .array a →
      ∃ calls, Visits (fun v => run n (.call callback none [v] pos)) a n 0 m calls
          (run (n + 1) (.call (.native .iterate) (some o) [callback] pos) m) ∧
        ∀ other : Work → Eval Value, (∀ before v, (before, v) ∈ calls →
            other (.call callback none [v] pos) before = run n (.call callback none [v] pos) before) →
          step n other (.call (.native .iterate) (some o) [callback] pos) m =
            run (n + 1) (.call (.native .iterate) (some o) [callback] pos) m) ∧
    (∀ m name iterable namePos body bodyPos origin pos v m₁ o m₂ a, m.Sound →
      run (n + 2) (.expression iterable) m = .ok v m₁ → box (run (n + 2)) v pos m₁ = .ok o m₂ →
      m₂.heap.lookup? o "iterate" = some (.native .iterate) →
      m₂.heap.unwrap (.object o) = .array a →
        m₂.current = m.current ∧ ∃ calls,
          Visits (fun v => run (n + 1)
              (.call (.procedure (loopBody name namePos body bodyPos origin)) none [v] pos))
            a (n + 1) 0 m₂ calls (run (n + 3) (.statement (.forIn name iterable
              (loopBody name namePos body bodyPos origin) pos)) m) ∧
          ∀ before v, (before, v) ∈ calls →
            ∃ s, Round n (loopBody name namePos body bodyPos origin) name v pos m₂ before s) ∧
    ∀ m a pos, m.Installed → ∃ o m', box (run (n + 2)) (.array a) pos m = .ok o m' ∧
      m.Boxed m' (.array a) o ∧ m'.heap.lookup? o "iterate" = some (.native .iterate) ∧
      m'.heap.unwrap (.object o) = .array a := by
  refine ⟨fun call a limit m calls r h => ⟨?_, ?_, ?_, ?_⟩, ?_, ?_, ?_⟩
  · intro k before v hk
    have hv := h.getElem?_eq hk
    rwa [Nat.zero_add] at hv
  · intro w m' hr
    rw [← (h.length_eq hr).2, Nat.zero_add]
  · intro k before v e m' hk hcall
    exact h.interrupted_eq hk hcall
  · intro e m' hr
    have hcases := h.error_cases hr
    rwa [Nat.zero_add] at hcases
  · intro m o a callback pos hm harray
    exact iterate_visits n hm harray callback pos
  · intro m name iterable namePos body bodyPos origin pos v m₁ o m₂ a hm hiterable hbox hmember harray
    have hvalue := (run_trusted (n + 2)).ending (.expression iterable) m hm
    rw [hiterable] at hvalue
    have hboxed := (Kept.box (run_trusted (n + 2)) v pos m₁ hvalue.1.is_sound).ending
    rw [hbox] at hboxed
    have hm₂ := hboxed.1.is_sound
    rw [run_forIn hiterable hbox hm₂ hmember harray]
    obtain ⟨calls, hvisits, -⟩ := iterate_visits (n + 1) hm₂ harray
      (.procedure (loopBody name namePos body bodyPos origin)) pos
    refine ⟨hboxed.2.1.trans hvalue.2.1, calls, hvisits, fun before w hmem => ?_⟩
    have hbetween : Between m₂ before :=
      hvisits.forall_mem (fun _ _ _ _ h hok => h.next hok) ⟨hm₂, rfl, .refl _⟩ before w hmem
    exact hbetween.round hm₂ n w pos
  · intro m a pos hm
    obtain ⟨o, m', hbox, hboxed, -, hlookup⟩ := box_array hm (n + 1) a pos
    exact ⟨o, m', hbox, hboxed, hlookup .iterate rfl, hboxed.unwrap_eq⟩

/-- The array `[4, 5]`. -/
def pairLiteral : Expression :=
  .array [.literal (.int 4) ⟨1, 11⟩, .literal (.int 5) ⟨1, 14⟩] ⟨1, 10⟩

/-- The body of `for x in [4, 5] { let y = x; }`. -/
def declaringBody : Procedure :=
  loopBody "x" ⟨1, 5⟩ ⟨[.declare ⟨"y", none, some (.variable "x" ⟨1, 27⟩), ⟨1, 19⟩⟩], ⟨1, 17⟩⟩ ⟨1, 1⟩ default

set_option maxRecDepth 4000 in
/-- A loop over two elements has two rounds, and what is declared in one of them is not found when the
other one begins. -/
theorem loops_visit_live_array_pair :
    Machine.bare.Sound ∧ ∃ start m' calls,
      Visits (fun v => run 4 (.call (.procedure declaringBody) none [v] ⟨1, 1⟩)) ⟨1⟩ 4 0 start calls
        (run 6 (.statement (.forIn "x" pairLiteral declaringBody ⟨1, 1⟩)) .bare) ∧
      run 6 (.statement (.forIn "x" pairLiteral declaringBody ⟨1, 1⟩)) .bare = .ok .null m' ∧
      calls.length = 2 ∧
      ∀ before v, (before, v) ∈ calls → before.current = Scopes.root ∧
        ∃ s, Begins declaringBody [none] [v] before s ∧ s.scopes.find? s.current "y" = none := by
  have hm : Machine.bare.Sound := Machine.fresh_sound "main" (.replayed []) []
  have hinstalled : (Machine.bare.enlarged [] [#[.int 4, .int 5]]).Installed :=
    (Machine.fresh_installed "main" (.replayed []) []).enlarged _ _
  have hiterable : run 5 (.expression pairLiteral) .bare =
      .ok (.array ⟨1⟩) (Machine.bare.enlarged [] [#[.int 4, .int 5]]) := by
    have hnew (m : Machine) : run 5 (.expression pairLiteral) m =
        .ok (.array (m.heap.addArray #[.int 4, .int 5]).1)
          { m with heap := (m.heap.addArray #[.int 4, .int 5]).2 } := rfl
    have hsize : Machine.bare.heap.arrays.size = 1 :=
      congrArg (fun h : Heap => h.arrays.size) (Machine.fresh_defined "main" (.replayed []) []).1
    rw [hnew, Heap.addArray_eq_append, hsize]
    rfl
  obtain ⟨hlaws, -, hfor, hbox⟩ := loops_visit_live_array 3
  obtain ⟨o, start, hbox, hboxed, hmember, harray⟩ := hbox _ ⟨1⟩ ⟨1, 1⟩ hinstalled
  obtain ⟨hcurrent, calls, hvisits, hrounds⟩ :=
    hfor .bare "x" pairLiteral ⟨1, 5⟩ declaringBody.body ⟨1, 1⟩ default ⟨1, 1⟩ _ _ o start ⟨1⟩ hm
      hiterable hbox hmember harray
  have hsize : (match run 6 (.statement (.forIn "x" pairLiteral declaringBody ⟨1, 1⟩)) .bare with
      | .ok _ m' => (m'.heap.elements ⟨1⟩).size == 2
      | .error .. => false) = true := by
    decide +kernel
  have hundeclared : Machine.bare.scopes.find? Machine.bare.current "y" = none := by decide +kernel
  obtain ⟨-, hends, -⟩ := hlaws _ _ _ _ _ _ hvisits
  cases hloop : run 6 (.statement (.forIn "x" pairLiteral declaringBody ⟨1, 1⟩)) .bare with
  | error e m' =>
    rw [hloop] at hsize
    cases hsize
  | ok w m' =>
    rw [hloop] at hsize
    have hlength := hends w m' hloop
    obtain ⟨rfl, -⟩ := hvisits.length_eq hloop
    refine ⟨hm, start, m', calls, hloop ▸ hvisits, rfl, hlength.trans (beq_iff_eq.mp hsize), ?_⟩
    intro before v hmem
    obtain ⟨s, hround⟩ := hrounds before v hmem
    obtain ⟨c, -, -, hfind⟩ := hround.visible
    refine ⟨hround.current_eq.trans hcurrent, s, hround.begins, ?_⟩
    rw [hfind "y", if_neg (by decide), hboxed.rest_eq]
    exact hundeclared

end Eval

end ProtoScript
