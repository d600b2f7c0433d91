import ProtoScript.Proofs.Scope.Supply
import ProtoScript.Proofs.Session.Discipline

/-!
# How arguments reach parameters

The values of a call are pushed on the operand stack one after the other, and come off it in the opposite
order: first those for the parameter that collects the rest, then one for each fixed parameter, from the last
one to the first.  The types of the parameters, which were evaluated before, go along with them.  Here it is
shown that everything arrives where it should, whatever the number of parameters and values.

The two ends of this way are described without the stack.  `Supplies` says which values the arguments of a
call stand for, and `Begins` says what a body finds when it begins to run.
-/

namespace ProtoScript

namespace Procedure

/-- All parameters, the one that collects the rest last. -/
def parameters (p : Procedure) : List Parameter :=
  p.fixed ++ p.rest.toList

/-- Whether the number of values is right: one for each fixed parameter, and more only if there is a
parameter that collects the rest. -/
def Takes (p : Procedure) (count : Nat) : Prop :=
  p.rest = none ∧ count = p.fixed.length ∨ p.rest ≠ none ∧ p.fixed.length ≤ count

/-- A procedure takes no fewer values than it has fixed parameters. -/
theorem Takes.le {p : Procedure} {count : Nat} (h : p.Takes count) : p.fixed.length ≤ count := by
  rcases h with ⟨-, hcount⟩ | ⟨-, hle⟩
  · exact Nat.le_of_eq hcount.symm
  · exact hle

/-- The check of the number of values is what it is meant to be. -/
theorem accepts_iff_takes (p : Procedure) (count : Nat) : p.accepts count = true ↔ p.Takes count := by
  unfold accepts Takes
  cases p.rest <;> simp

/-- What is bound for the fixed parameters, first to last. -/
def fixedSupply (p : Procedure) (types : List (Option ObjectRef)) (values : List Value) :
    List Supplied :=
  List.zipWith (fun entry v => ⟨entry.1.name, entry.2, v⟩) (p.fixed.zip types) values

/-- What is bound for the parameter that collects the rest. -/
def restSupply (p : Procedure) (a : ArrayRef) : List Supplied :=
  p.rest.toList.map fun q => ⟨q.name, none, .array a⟩

/-- What is bound for all parameters, in the order in which it is bound. -/
def supply (p : Procedure) (types : List (Option ObjectRef)) (values : List Value) (a : ArrayRef) :
    List Supplied :=
  p.restSupply a ++ (p.fixedSupply types values).reverse

/-- The heap with the array of the values beyond the fixed parameters, if there is a parameter for it. -/
def collect (p : Procedure) (values : List Value) (h : Heap) : Heap :=
  match p.rest with
  | some _ => (h.addArray (values.drop p.fixed.length).toArray).2
  | none => h

/-- What is supplied to the rest parameter has its name. -/
theorem map_name_restSupply (p : Procedure) (a : ArrayRef) :
    (p.restSupply a).map (·.name) = p.rest.toList.map (·.name) := by
  rw [restSupply, List.map_map]
  rfl

/-- The fixed parameters, each with its type, in their order. -/
theorem map_name_zip {p : Procedure} {types : List (Option ObjectRef)}
    (htypes : types.length = p.fixed.length) :
    (p.fixed.zip types).map (·.1.name) = p.fixed.map (·.name) := by
  have hcomp : (fun entry : Parameter × Option ObjectRef => entry.1.name) =
      Parameter.name ∘ Prod.fst := rfl
  rw [hcomp, ← List.map_map, List.map_fst_zip (Nat.le_of_eq htypes.symm)]

/-- Only one value for each fixed parameter is bound to them. -/
theorem fixedSupply_take {p : Procedure} {types : List (Option ObjectRef)}
    (htypes : types.length = p.fixed.length) (values : List Value) :
    p.fixedSupply types (values.take p.fixed.length) = p.fixedSupply types values := by
  have hlength : (p.fixed.zip types).length = p.fixed.length := by
    rw [List.length_zip, htypes, Nat.min_self]
  have htake : (p.fixed.zip types).take p.fixed.length = p.fixed.zip types :=
    List.take_of_length_le (Nat.le_of_eq hlength)
  unfold fixedSupply
  nth_rewrite 1 [← htake]
  rw [← List.take_zipWith, List.take_of_length_le]
  rw [List.length_zipWith, hlength]
  exact Nat.min_le_left _ _

end Procedure

/-- A value may be used where a type is declared. -/
def Machine.Fits (m : Machine) (declared : ObjectRef) (v : Value) : Prop :=
  ∃ actual, m.runtimeType? v = some actual ∧ m.admits declared actual v = true

namespace Eval

/-! ### The values of a call -/

/-- Arguments are evaluated in order, and stand for these values; one that is spread stands for the elements
that its array has at that moment. -/
inductive Supplies (self : Work → Eval Value) :
    List Expression → Machine → List Value → Machine → Prop
  | nil {m : Machine} : Supplies self [] m [] m
  | plain {e : Expression} {es : List Expression} {m m₁ m₂ : Machine} {v : Value} {vs : List Value}
    (hplain : ∀ e' pos, e ≠ .splat e' pos) (he : self (.expression e) m = .ok v m₁)
    (hes : Supplies self es m₁ vs m₂) : Supplies self (e :: es) m (v :: vs) m₂
  | spread {e : Expression} {es : List Expression} {pos : Position} {m m₁ m₂ : Machine} {v : Value}
    {a : ArrayRef} {vs : List Value} (he : self (.expression e) m = .ok v m₁)
    (hv : m₁.heap.unwrap v = .array a) (hes : Supplies self es m₁ vs m₂) :
    Supplies self (.splat e pos :: es) m ((m₁.heap.elements a).toList ++ vs) m₂

/-- A call expression comes to the call of a procedure, for a receiver if the callee is a member of
something. -/
inductive Issues (self : Work → Eval Value) :
    Expression → List Expression → Position → Machine → Procedure → Option ObjectRef → List Value →
      Machine → Prop
  | plain {callee : Expression} {es : List Expression} {pos : Position} {m m₁ m₂ : Machine}
    {p : Procedure} {vs : List Value} (hplain : ∀ target name place, callee ≠ .member target name place)
    (hcallee : self (.expression callee) m = .ok (.procedure p) m₁)
    (hes : Supplies self es m₁ vs m₂) : Issues self callee es pos m p none vs m₂
  | message {target : Expression} {name : String} {place pos : Position} {es : List Expression}
    {m m₁ m₂ m₃ : Machine} {v : Value} {o : ObjectRef} {p : Procedure} {vs : List Value}
    (htarget : self (.expression target) m = .ok v m₁) (hbox : box self v pos m₁ = .ok o m₂)
    (hmember : m₂.heap.lookup? o name = some (.procedure p)) (hes : Supplies self es m₂ vs m₃) :
    Issues self (.member target name place) es pos m p (some o) vs m₃

/-- Values fit the declared types of fixed parameters; each type is evaluated just before its value is
checked. -/
inductive Passes (self : Work → Eval Value) :
    List Parameter → List Value → Machine → List (Option ObjectRef) → Machine → Prop
  | nil {vs : List Value} {m : Machine} : Passes self [] vs m [] m
  | untyped {q : Parameter} {ps : List Parameter} {v : Value} {vs : List Value} {m m' : Machine}
    {types : List (Option ObjectRef)} (hq : q.type = none) (hps : Passes self ps vs m types m') :
    Passes self (q :: ps) (v :: vs) m (none :: types) m'
  | typed {q : Parameter} {ps : List Parameter} {v : Value} {vs : List Value} {m m₁ m' : Machine}
    {types : List (Option ObjectRef)} {e : Expression} {t : ObjectRef} (hq : q.type = some e)
    (ht : evaluateType self e m = .ok t m₁) (hv : m₁.Fits t v) (hps : Passes self ps vs m₁ types m') :
    Passes self (q :: ps) (v :: vs) m (some t :: types) m'

/-- The values of a call fit the declared types of all parameters; the type of the parameter that collects
the rest is for each of the values beyond the fixed ones. -/
def Suits (self : Work → Eval Value) (p : Procedure) (values : List Value) (m : Machine)
    (types : List (Option ObjectRef)) (m' : Machine) : Prop :=
  ∃ m₁, Passes self p.fixed values m types m₁ ∧
    match p.rest.bind (·.type) with
    | none => m' = m₁
    | some e => ∃ t, evaluateType self e m₁ = .ok t m' ∧
      ∀ v ∈ values.drop p.fixed.length, m'.Fits t v

/-! ### Where the body begins -/

/-- What a body finds when it begins, where `m` is the machine of the caller: a new scope inside that of the
caller, which binds the parameters and nothing else, and the operands of the caller.  The fixed parameters
have the declared types and the values of the call, one by one; the last parameter has a new array of the
other values.  Everything else is as it was. -/
structure Begins (p : Procedure) (types : List (Option ObjectRef)) (values : List Value)
    (m s : Machine) : Prop where
  scope_new : s.current.index = m.scopes.scopes.size
  parent : s.scopes.parent? s.current = some m.current
  operands : s.operands = m.operands
  fixed : ∀ i (hi : i < p.fixed.length), ∃ c type v, types[i]? = some type ∧ values[i]? = some v ∧
    s.scopes.findLocal? s.current p.fixed[i].name = some c ∧ s.scopes.cell c = ⟨type, some v⟩
  rest : ∀ q, p.rest = some q → ∃ c a, s.scopes.findLocal? s.current q.name = some c ∧
    s.scopes.cell c = ⟨none, some (.array a)⟩ ∧ ¬ m.heap.Has (.array a) ∧ s.heap.Has (.array a) ∧
    s.heap.elements a = (values.drop p.fixed.length).toArray
  only : ∀ name c, s.scopes.findLocal? s.current name = some c →
    m.scopes.cells.size ≤ c.index ∧ ∃ q ∈ p.parameters, q.name = name
  separate : ∀ name name' c, s.scopes.findLocal? s.current name = some c →
    s.scopes.findLocal? s.current name' = some c → name = name'
  bindings : ∀ r, r.index < m.scopes.scopes.size → s.scopes.parent? r = m.scopes.parent? r ∧
    ∀ name, s.scopes.findLocal? r name = m.scopes.findLocal? r name
  cells : ∀ c, c.index < m.scopes.cells.size → s.scopes.cell c = m.scopes.cell c
  objects : s.heap.objects = m.heap.objects
  arrays : ∀ a, m.heap.Has (.array a) → s.heap.elements a = m.heap.elements a
  same : s = { m with heap := s.heap, scopes := s.scopes, current := s.current }

/-- How a call ends after its body, where `m` is the machine of the caller. -/
inductive Concludes (m : Machine) :
    EStateM.Result Interruption Machine Unit → EStateM.Result Interruption Machine Value → Prop
  | finished {s : Machine} : Concludes m (.ok () s)
    (.ok (.int 0) { s with current := m.current, operands := m.operands })
  | returned {s : Machine} {pos : Position} {v : Value} (hv : s.operands = m.operands.push v) :
    Concludes m (.error (.returned pos) s)
      (.ok v { s with current := m.current, operands := m.operands })
  | interrupted {s : Machine} {e : Interruption} (he : ∀ pos, e ≠ .returned pos) :
    Concludes m (.error e s) (.error e
      { s with current := m.current, operands := s.operands.unwindTo m.operands.height })

/-! ### Evaluating the arguments -/

section

variable {self : Work → Eval Value}

/-- An argument that is not spread is evaluated, and then the others are. -/
theorem evaluateArguments_plain {e : Expression} (hplain : ∀ e' pos, e ≠ .splat e' pos)
    (es : List Expression) :
    evaluateArguments self (e :: es) =
      (do return (← self (.expression e)) :: (← evaluateArguments self es)) := by
  cases e with
  | splat e pos => exact absurd rfl (hplain e pos)
  | _ => rfl

/-- Arguments that supply values are evaluated to them. -/
theorem evaluateArguments_of_supplies {es : List Expression} {m m' : Machine} {values : List Value}
    (hs : Supplies self es m values m') : evaluateArguments self es m = .ok values m' := by
  induction hs with
  | nil => rfl
  | plain hplain he _ ih =>
    rw [evaluateArguments_plain hplain, bind_of_ok he, bind_of_ok ih]
    rfl
  | @spread e es pos m m₁ m₂ v a vs he hv _ ih =>
    have hunwrap : unwrap v m₁ = .ok (.array a) m₁ := by
      rw [← hv]
      rfl
    rw [evaluateArguments, bind_of_ok he, bind_of_ok hunwrap]
    dsimp only
    rw [get_bind, bind_of_ok ih]
    rfl

/-- Arguments that are evaluated to values supply them. -/
theorem supplies_of_evaluateArguments {es : List Expression} {m m' : Machine} {values : List Value}
    (hok : evaluateArguments self es m = .ok values m') : Supplies self es m values m' := by
  induction es generalizing m values with
  | nil =>
    cases hok
    exact .nil
  | cons e es ih =>
    by_cases hsplat : ∃ e' pos, e = .splat e' pos
    · obtain ⟨e', pos, rfl⟩ := hsplat
      rw [evaluateArguments] at hok
      obtain ⟨v, m₁, he, hok⟩ := exists_of_bind_ok hok
      obtain ⟨w, m₂, hw, hok⟩ := exists_of_bind_ok hok
      have hunwrap : m₁.heap.unwrap v = w ∧ m₁ = m₂ := by
        cases hw
        exact ⟨rfl, rfl⟩
      obtain ⟨hv, rfl⟩ := hunwrap
      cases w with
      | array a =>
        dsimp only at hok
        rw [get_bind] at hok
        obtain ⟨vs, m₃, hes, hok⟩ := exists_of_bind_ok hok
        cases hok
        exact .spread he hv (ih hes)
      | _ => cases hok
    · have hplain : ∀ e' pos, e ≠ .splat e' pos := fun e' pos heq => hsplat ⟨e', pos, heq⟩
      rw [evaluateArguments_plain hplain] at hok
      obtain ⟨v, m₁, he, hok⟩ := exists_of_bind_ok hok
      obtain ⟨vs, m₂, hes, hok⟩ := exists_of_bind_ok hok
      cases hok
      exact .plain hplain he (ih hes)

/-- A call expression that comes to the call of a procedure does what that call does. -/
theorem callExpression_of_issues {callee : Expression} {es : List Expression} {pos : Position}
    {m m' : Machine} {p : Procedure} {receiver : Option ObjectRef} {values : List Value}
    (hi : Issues self callee es pos m p receiver values m') :
    callExpression self callee es pos m = self (.call (.procedure p) receiver values pos) m' := by
  cases hi with
  | plain hplain hcallee hes =>
    have hcall : callExpression self callee es pos =
        (do
          let function ← self (.expression callee)
          let values ← evaluateArguments self es
          self (.call function none values pos)) := by
      cases callee with
      | member target name place => exact absurd rfl (hplain target name place)
      | _ => rfl
    rw [hcall, bind_of_ok hcallee, bind_of_ok (evaluateArguments_of_supplies hes)]
  | @message target name place _ _ _ m₁ m₂ _ v o _ _ htarget hbox hmember hes =>
    have hfound : member o name pos m₂ = .ok (.procedure p) m₂ := by
      unfold member
      rw [get_bind, hmember]
      rfl
    rw [callExpression, sendTo, bind_of_ok htarget, bind_of_ok hbox, bind_of_ok hfound,
      bind_of_ok (evaluateArguments_of_supplies hes)]

/-! ### Checking the types -/

/-- A check succeeds exactly if the value may be used, and leaves the machine as it is. -/
theorem typecheck_eq_ok_iff_fits {v : Value} {t : ObjectRef} {pos : Position} {m m' : Machine} :
    typecheck v t pos m = .ok () m' ↔ m' = m ∧ m.Fits t v := by
  constructor
  · intro hok
    have hsame : m' = m := by
      unfold typecheck at hok
      rw [get_bind] at hok
      cases hactual : m.runtimeType? v with
      | none =>
        rw [hactual] at hok
        cases hok
      | some actual =>
        rw [hactual] at hok
        dsimp only at hok
        cases hadmits : m.admits t actual v with
        | true =>
          rw [hadmits] at hok
          cases hok
          rfl
        | false =>
          rw [hadmits] at hok
          cases hok
    subst hsame
    exact ⟨rfl, typecheck_eq_ok_iff.mp hok⟩
  · rintro ⟨rfl, hfits⟩
    exact typecheck_eq_ok_iff.mpr hfits

/-- The check of the fixed parameters succeeds for values that pass it. -/
theorem checkFixed_eq_ok_iff {pos : Position} {ps : List Parameter} {vs : List Value}
    (hlength : ps.length ≤ vs.length) {m m' : Machine} {types : List (Option ObjectRef)} :
    checkFixed self pos ps vs m = .ok types m' ↔ Passes self ps vs m types m' := by
  induction ps generalizing vs m types with
  | nil =>
    constructor
    · intro hok
      cases hok
      exact .nil
    · intro hpasses
      cases hpasses
      rfl
  | cons q ps ih =>
    cases vs with
    | nil => exact absurd hlength (Nat.not_succ_le_zero _)
    | cons v vs =>
      have hrest : ps.length ≤ vs.length := Nat.le_of_succ_le_succ hlength
      unfold checkFixed
      cases hq : q.type with
      | none =>
        dsimp only
        constructor
        · intro hok
          obtain ⟨types', m₁, hps, hok⟩ := exists_of_bind_ok hok
          cases hok
          exact .untyped hq ((ih hrest).mp hps)
        · intro hpasses
          cases hpasses with
          | untyped _ hps =>
            rw [bind_of_ok ((ih hrest).mpr hps)]
            rfl
          | typed hq' => cases hq.symm.trans hq'
      | some e =>
        dsimp only
        constructor
        · intro hok
          obtain ⟨t, m₁, ht, hchecked⟩ := exists_of_bind_ok hok
          obtain ⟨_, m₂, hv, hothers⟩ := exists_of_bind_ok hchecked
          obtain ⟨types', m₃, hps, hdone⟩ := exists_of_bind_ok hothers
          obtain ⟨rfl, hfits⟩ := typecheck_eq_ok_iff_fits.mp hv
          cases hdone
          exact .typed hq ht hfits ((ih hrest).mp hps)
        · intro hpasses
          cases hpasses with
          | untyped hq' => cases hq.symm.trans hq'
          | typed hq' ht hfits hps =>
            obtain rfl := Option.some.inj (hq.symm.trans hq')
            rw [bind_of_ok ht, bind_of_ok (typecheck_eq_ok_iff_fits.mpr ⟨rfl, hfits⟩),
              bind_of_ok ((ih hrest).mpr hps)]
            rfl

/-- The check against one type succeeds for values that all fit it. -/
theorem checkAll_eq_ok_iff {t : ObjectRef} {pos : Position} {vs : List Value} {m m' : Machine} :
    checkAll t pos vs m = .ok () m' ↔ m' = m ∧ ∀ v ∈ vs, m.Fits t v := by
  induction vs with
  | nil =>
    constructor
    · intro hok
      cases hok
      exact ⟨rfl, nofun⟩
    · rintro ⟨rfl, -⟩
      rfl
  | cons v vs ih =>
    unfold checkAll
    constructor
    · intro hok
      obtain ⟨_, m₁, hv, hothers⟩ := exists_of_bind_ok hok
      obtain ⟨rfl, hfits⟩ := typecheck_eq_ok_iff_fits.mp hv
      obtain ⟨hsame, hrest⟩ := ih.mp hothers
      exact ⟨hsame, List.forall_mem_cons.mpr ⟨hfits, hrest⟩⟩
    · rintro ⟨rfl, hall⟩
      obtain ⟨hfits, hrest⟩ := List.forall_mem_cons.mp hall
      rw [bind_of_ok (typecheck_eq_ok_iff_fits.mpr ⟨rfl, hfits⟩)]
      exact ih.mpr ⟨rfl, hrest⟩

/-- There is a type, or none, for each of the fixed parameters. -/
theorem Passes.length_eq {ps : List Parameter} {vs : List Value} {m m' : Machine}
    {types : List (Option ObjectRef)} (hp : Passes self ps vs m types m') :
    types.length = ps.length := by
  induction hp with
  | nil => rfl
  | untyped _ _ ih => exact congrArg (· + 1) ih
  | typed _ _ _ _ ih => exact congrArg (· + 1) ih

/-- The check of all values of a call succeeds exactly if they suit the parameters. -/
theorem checkArguments_eq_ok_iff {p : Procedure} {values : List Value}
    (hlength : p.fixed.length ≤ values.length) {pos : Position} {m m' : Machine}
    {types : List (Option ObjectRef)} :
    checkArguments self p values pos m = .ok types m' ↔ Suits self p values m types m' := by
  unfold checkArguments Suits
  constructor
  · intro hok
    obtain ⟨types', m₁, hfixed, hok⟩ := exists_of_bind_ok hok
    have hpasses := (checkFixed_eq_ok_iff hlength).mp hfixed
    cases hrest : p.rest.bind (·.type) with
    | none =>
      rw [hrest] at hok
      cases hok
      exact ⟨m', hpasses, rfl⟩
    | some e =>
      rw [hrest] at hok
      dsimp only at hok
      obtain ⟨t, m₂, ht, hchecked⟩ := exists_of_bind_ok hok
      obtain ⟨_, m₃, hall, hdone⟩ := exists_of_bind_ok hchecked
      obtain ⟨rfl, hfits⟩ := checkAll_eq_ok_iff.mp hall
      cases hdone
      rw [hpasses.length_eq] at hfits
      exact ⟨m₁, hpasses, t, ht, hfits⟩
  · rintro ⟨m₁, hpasses, hrest⟩
    rw [bind_of_ok ((checkFixed_eq_ok_iff hlength).mpr hpasses)]
    cases htype : p.rest.bind (·.type) with
    | none =>
      rw [htype] at hrest
      obtain rfl := hrest
      rfl
    | some e =>
      rw [htype] at hrest
      obtain ⟨t, ht, hfits⟩ := hrest
      rw [← hpasses.length_eq] at hfits
      dsimp only
      rw [bind_of_ok ht, bind_of_ok (checkAll_eq_ok_iff.mpr ⟨rfl, hfits⟩)]
      rfl

/-! ### Binding the parameters -/

/-- Declaring a name that is free binds it to a new cell. -/
theorem declare_of_unbound {name : String} {m : Machine}
    (hname : m.scopes.findLocal? m.current name = none) (type : Option ObjectRef) (pos : Position) :
    declare name type pos m = .ok (m.scopes.bind m.current name type).1
      { m with scopes := (m.scopes.bind m.current name type).2 } := by
  unfold declare
  rw [get_bind, hname]
  rfl

/-- Declaring a name that is taken is refused. -/
theorem declare_of_bound {name : String} {m : Machine}
    (hname : m.scopes.findLocal? m.current name ≠ none) (type : Option ObjectRef) (pos : Position) :
    declare name type pos m = .error (.raised ((Problem.alreadyDefined name).diagnostic m.file pos))
      { m with raised := m.raised ++ [(Problem.alreadyDefined name).diagnostic m.file pos] } := by
  unfold declare
  rw [get_bind]
  cases hc : m.scopes.findLocal? m.current name with
  | none => exact absurd hc hname
  | some c => rfl

/-- A fixed parameter whose name can be declared gets the topmost value. -/
theorem bindFixed_cons {q : Parameter} {m : Machine}
    (hname : m.scopes.findLocal? m.current q.name = none) {s : Operands} {v : Value}
    (hoperands : m.operands = s.push v) (type : Option ObjectRef)
    (entries : List (Parameter × Option ObjectRef)) (pos : Position) :
    bindFixed pos ((q, type) :: entries) m = bindFixed pos entries { m with
      operands := s
      scopes := m.scopes.supplyOne m.current ⟨q.name, type, v⟩ } := by
  have hdeclare := declare_of_unbound (m := { m with operands := s }) hname type q.pos
  have hput (c : CellRef) (m₁ : Machine) :
      putCell c v m₁ = .ok () { m₁ with scopes := m₁.scopes.put c v } := rfl
  rw [bindFixed, bind_of_ok (popOperand_of_push hoperands pos), bind_of_ok hdeclare,
    bind_of_ok (hput _ _)]
  rfl

/-- If their names can be declared, fixed parameters get the values on top of the stack, the first one of
them the topmost value. -/
theorem bindFixed_of_vacant (pos : Position) {s : Operands}
    {entries : List (Parameter × Option ObjectRef)} (vs : List Value)
    (hlength : vs.length = entries.length) {m : Machine}
    (hcurrent : m.current.index < m.scopes.scopes.size)
    (hvacant : m.scopes.Vacant m.current (entries.map (·.1.name)))
    (hoperands : m.operands = s.pushAll vs.reverse) :
    bindFixed pos entries m = .ok () { m with
      operands := s
      scopes := m.scopes.supply m.current
        (List.zipWith (fun entry v => ⟨entry.1.name, entry.2, v⟩) entries vs) } := by
  induction entries generalizing vs m with
  | nil =>
    obtain rfl : vs = [] := List.eq_nil_of_length_eq_zero hlength
    have hs : m.operands = s := hoperands
    subst hs
    rfl
  | cons entry entries ih =>
    obtain ⟨q, type⟩ := entry
    cases vs with
    | nil => cases hlength
    | cons v vs =>
      rw [List.reverse_cons, Operands.pushAll_concat] at hoperands
      obtain ⟨hname, hvacant⟩ :=
        (Scopes.vacant_cons_iff (b := ⟨q.name, type, v⟩) hcurrent).mp hvacant
      rw [bindFixed_cons hname hoperands,
        ih vs (Nat.succ.inj hlength) (by rwa [Scopes.size_supplyOne]) hvacant rfl]
      rfl

/-- If their names cannot all be declared, one of the fixed parameters is refused. -/
theorem bindFixed_of_not_vacant (pos : Position) {s : Operands}
    {entries : List (Parameter × Option ObjectRef)} (vs : List Value)
    (hlength : vs.length = entries.length) {m : Machine}
    (hcurrent : m.current.index < m.scopes.scopes.size)
    (hclash : ¬ m.scopes.Vacant m.current (entries.map (·.1.name)))
    (hoperands : m.operands = s.pushAll vs.reverse) :
    ∃ entry ∈ entries, ∃ m', bindFixed pos entries m =
      .error (.raised ((Problem.alreadyDefined entry.1.name).diagnostic m.file entry.1.pos)) m' := by
  induction entries generalizing vs m with
  | nil => exact absurd ⟨List.nodup_nil, nofun⟩ hclash
  | cons entry entries ih =>
    obtain ⟨q, type⟩ := entry
    cases vs with
    | nil => cases hlength
    | cons v vs =>
      rw [List.reverse_cons, Operands.pushAll_concat] at hoperands
      by_cases hname : m.scopes.findLocal? m.current q.name = none
      · have hclash' : ¬ (m.scopes.supplyOne m.current ⟨q.name, type, v⟩).Vacant m.current
            (entries.map (·.1.name)) := fun hvacant =>
          hclash ((Scopes.vacant_cons_iff (b := ⟨q.name, type, v⟩) hcurrent).mpr ⟨hname, hvacant⟩)
        obtain ⟨entry, hentry, m', herror⟩ :=
          ih (m := { m with
            operands := s.pushAll vs.reverse
            scopes := m.scopes.supplyOne m.current ⟨q.name, type, v⟩ })
            vs (Nat.succ.inj hlength) (by rwa [Scopes.size_supplyOne]) hclash' rfl
        rw [bindFixed_cons hname hoperands]
        exact ⟨entry, List.mem_cons_of_mem _ hentry, m', herror⟩
      · have hdeclare := declare_of_bound
          (m := { m with operands := s.pushAll vs.reverse }) hname type q.pos
        rw [bindFixed, bind_of_ok (popOperand_of_push hoperands pos)]
        exact ⟨(q, type), List.mem_cons_self, _, bind_of_error hdeclare⟩

/-- What is done before the fixed parameters are bound: the values beyond them are collected in a new array,
if there is a parameter for it. -/
theorem bindParameters_eq_bindFixed {p : Procedure} {values : List Value}
    (types : List (Option ObjectRef)) (pos : Position) (htakes : p.Takes values.length) {s : Operands}
    {m : Machine} (hrest : ∀ q, p.rest = some q → m.scopes.findLocal? m.current q.name = none)
    (hoperands : m.operands = s.pushAll values) :
    bindParameters p values.length types pos m = bindFixed pos (p.fixed.zip types).reverse { m with
      operands := s.pushAll (values.take p.fixed.length)
      heap := p.collect values m.heap
      scopes := m.scopes.supply m.current (p.restSupply ⟨m.heap.arrays.size⟩) } := by
  unfold bindParameters Procedure.collect Procedure.restSupply
  cases hq : p.rest with
  | none =>
    obtain ⟨-, hcount⟩ | ⟨hne, -⟩ := htakes
    · have htake : values.take p.fixed.length = values := List.take_of_length_le (Nat.le_of_eq hcount)
      rw [htake, ← hoperands]
      rfl
    · exact absurd hq hne
  | some q =>
    have hsplit : m.operands =
        (s.pushAll (values.take p.fixed.length)).pushAll (values.drop p.fixed.length) := by
      rw [← Operands.pushAll_append, List.take_append_drop]
      exact hoperands
    have hpop := popOperands_of_pushAll pos hsplit []
    rw [List.length_drop, List.append_nil] at hpop
    have hdeclare := declare_of_unbound
      (m := { m with operands := s.pushAll (values.take p.fixed.length) }) (hrest q hq) none q.pos
    dsimp only
    rw [bind_of_ok hpop, bind_of_ok hdeclare]
    rfl

/-- The fixed parameters are bound in the order in which their values come off the stack. -/
theorem names_reverse_zip {p : Procedure} {types : List (Option ObjectRef)}
    (htypes : types.length = p.fixed.length) :
    (p.fixed.zip types).reverse.map (·.1.name) = p.fixed.reverse.map (·.name) := by
  rw [List.map_reverse, Procedure.map_name_zip htypes, List.map_reverse]

theorem length_take_eq {p : Procedure} {values : List Value} {types : List (Option ObjectRef)}
    (htakes : p.Takes values.length) (htypes : types.length = p.fixed.length) :
    (values.take p.fixed.length).length = (p.fixed.zip types).length := by
  rw [List.length_take, List.length_zip, htypes, Nat.min_self, Nat.min_eq_left htakes.le]

/-- If their names can be declared, all parameters get their values. -/
theorem bindParameters_of_vacant {p : Procedure} {values : List Value}
    {types : List (Option ObjectRef)} (pos : Position) (htakes : p.Takes values.length)
    (htypes : types.length = p.fixed.length) {s : Operands} {m : Machine}
    (hcurrent : m.current.index < m.scopes.scopes.size)
    (hvacant : m.scopes.Vacant m.current ((p.rest.toList ++ p.fixed.reverse).map (·.name)))
    (hoperands : m.operands = s.pushAll values) :
    bindParameters p values.length types pos m = .ok () { m with
      operands := s
      heap := p.collect values m.heap
      scopes := m.scopes.supply m.current (p.supply types values ⟨m.heap.arrays.size⟩) } := by
  rw [List.map_append, ← p.map_name_restSupply ⟨m.heap.arrays.size⟩,
    Scopes.vacant_append_iff hcurrent] at hvacant
  obtain ⟨hrest, hfixed⟩ := hvacant
  have hunbound (q : Parameter) (hq : p.rest = some q) :
      m.scopes.findLocal? m.current q.name = none := by
    refine hrest.unbound q.name ?_
    rw [p.map_name_restSupply, hq]
    exact List.mem_singleton_self _
  have hzip : (p.fixedSupply types values).reverse =
      List.zipWith (fun entry v => ⟨entry.1.name, entry.2, v⟩) (p.fixed.zip types).reverse
        (values.take p.fixed.length).reverse := by
    rw [← Procedure.fixedSupply_take htypes]
    exact List.reverse_zipWith (length_take_eq htakes htypes).symm
  rw [bindParameters_eq_bindFixed types pos htakes hunbound hoperands,
    bindFixed_of_vacant pos (values.take p.fixed.length).reverse
      (by rw [List.length_reverse, List.length_reverse, length_take_eq htakes htypes])
      (by rwa [Scopes.size_supply]) (by rwa [names_reverse_zip htypes])
      (by rw [List.reverse_reverse]),
    ← hzip, Procedure.supply, Scopes.supply_append]

/-- If two parameters share their name, one of them is refused. -/
theorem bindParameters_of_not_vacant {p : Procedure} {values : List Value}
    {types : List (Option ObjectRef)} (pos : Position) (htakes : p.Takes values.length)
    (htypes : types.length = p.fixed.length) {s : Operands} {m : Machine}
    (hcurrent : m.current.index < m.scopes.scopes.size)
    (hempty : ∀ name, m.scopes.findLocal? m.current name = none)
    (hclash : ¬ ((p.rest.toList ++ p.fixed.reverse).map (·.name)).Nodup)
    (hoperands : m.operands = s.pushAll values) :
    ∃ q ∈ p.parameters, ∃ m', bindParameters p values.length types pos m =
      .error (.raised ((Problem.alreadyDefined q.name).diagnostic m.file q.pos)) m' := by
  have hrest : m.scopes.Vacant m.current ((p.restSupply ⟨m.heap.arrays.size⟩).map (·.name)) := by
    refine ⟨?_, fun name _ => hempty name⟩
    rw [p.map_name_restSupply]
    cases p.rest <;> simp
  have hfixed : ¬ (m.scopes.supply m.current (p.restSupply ⟨m.heap.arrays.size⟩)).Vacant m.current
      ((p.fixed.zip types).reverse.map (·.1.name)) := by
    intro hfixed
    rw [names_reverse_zip htypes] at hfixed
    have hvacant := (Scopes.vacant_append_iff hcurrent).mpr ⟨hrest, hfixed⟩
    rw [p.map_name_restSupply, ← List.map_append] at hvacant
    exact hclash hvacant.nodup
  rw [bindParameters_eq_bindFixed types pos htakes (fun q _ => hempty q.name) hoperands]
  obtain ⟨entry, hentry, m', herror⟩ :=
    bindFixed_of_not_vacant pos (values.take p.fixed.length).reverse (m := { m with
      operands := s.pushAll (values.take p.fixed.length)
      heap := p.collect values m.heap
      scopes := m.scopes.supply m.current (p.restSupply ⟨m.heap.arrays.size⟩) })
      (by rw [List.length_reverse, List.length_reverse, length_take_eq htakes htypes])
      (by rwa [Scopes.size_supply]) hfixed (by rw [List.reverse_reverse])
  have hmem : entry.1 ∈ p.fixed := (List.of_mem_zip (List.mem_reverse.mp hentry)).1
  exact ⟨entry.1, List.mem_append_left _ hmem, m', herror⟩

/-! ### Beginning the body -/

/-- The machine on which a body begins to run. -/
def began (p : Procedure) (types : List (Option ObjectRef)) (values : List Value) (m : Machine) :
    Machine :=
  { opened m with
    heap := p.collect values m.heap
    scopes := (opened m).scopes.supply (opened m).current
      (p.supply types values ⟨m.heap.arrays.size⟩) }

theorem current_lt_opened (m : Machine) :
    (opened m).current.index < (opened m).scopes.scopes.size := by
  simp [opened, Scopes.addChild]

/-- A scope that was opened binds nothing. -/
theorem findLocal?_opened (m : Machine) (name : String) :
    (opened m).scopes.findLocal? (opened m).current name = none := by
  simp [opened, Scopes.addChild, Scopes.findLocal?, Scopes.scope, NameMap.get?, NameMap.empty,
    NameMap.find?]

/-- Something is supplied to every fixed parameter. -/
theorem length_fixedSupply {p : Procedure} {types : List (Option ObjectRef)} {values : List Value}
    (hvalues : p.fixed.length ≤ values.length) (htypes : types.length = p.fixed.length) :
    (p.fixedSupply types values).length = p.fixed.length := by
  rw [Procedure.fixedSupply, List.length_zipWith, List.length_zip, htypes, Nat.min_self,
    Nat.min_eq_left hvalues]

/-- The names that are bound are those of the parameters. -/
theorem map_name_supply {p : Procedure} {types : List (Option ObjectRef)} {values : List Value}
    (hvalues : p.fixed.length ≤ values.length) (htypes : types.length = p.fixed.length)
    (a : ArrayRef) :
    (p.supply types values a).map (·.name) = (p.rest.toList ++ p.fixed.reverse).map (·.name) := by
  have hfixed : (p.fixedSupply types values).map (·.name) = p.fixed.map (·.name) := by
    refine List.ext_getElem ?_ fun i hi hi' => ?_
    · rw [List.length_map, List.length_map, length_fixedSupply hvalues htypes]
    · simp [Procedure.fixedSupply]
  rw [Procedure.supply, List.map_append, p.map_name_restSupply, List.map_reverse, hfixed,
    List.map_append, List.map_reverse]

/-- The order in which parameters are bound does not matter to whether their names are different. -/
theorem perm_parameters (p : Procedure) : (p.rest.toList ++ p.fixed.reverse).Perm p.parameters :=
  List.perm_append_comm.trans ((List.reverse_perm p.fixed).append_right _)

/-- The new array holds the values beyond the fixed parameters. -/
theorem elements_collect {p : Procedure} {q : Parameter} (hq : p.rest = some q) (values : List Value)
    (h : Heap) : (p.collect values h).elements ⟨h.arrays.size⟩ =
      (values.drop p.fixed.length).toArray := by
  simp [Procedure.collect, hq, Heap.addArray, Heap.elements]

/-- Collecting values leaves the arrays from before as they are. -/
theorem elements_collect_of_has (p : Procedure) (values : List Value) {h : Heap} {a : ArrayRef}
    (ha : h.Has (.array a)) : (p.collect values h).elements a = h.elements a := by
  unfold Procedure.collect
  cases p.rest with
  | none => rfl
  | some q => simp [Heap.addArray, Heap.elements, Array.getElem?_push, Nat.ne_of_lt ha]

/-- Where the names of the parameters are different, the body finds what it should find. -/
theorem begins_began {p : Procedure} {types : List (Option ObjectRef)} {values : List Value}
    (hvalues : p.fixed.length ≤ values.length) (htypes : types.length = p.fixed.length)
    (hnames : (p.parameters.map (·.name)).Nodup) (m : Machine) :
    Begins p types values m (began p types values m) := by
  have hr := current_lt_opened m
  have hnodup : ((p.supply types values ⟨m.heap.arrays.size⟩).map (·.name)).Nodup := by
    rw [map_name_supply hvalues htypes]
    exact ((perm_parameters p).map _).nodup_iff.mpr hnames
  have hold {r : ScopeRef} (hlt : r.index < m.scopes.scopes.size) : (opened m).current ≠ r := by
    rintro rfl
    exact absurd hlt (Nat.lt_irrefl _)
  refine
    { scope_new := rfl
      parent := (Scopes.parent?_supply ..).trans (Scopes.addChild_parent?_self ..)
      operands := rfl
      fixed := fun i hi => ?fixed
      rest := fun q hq => ?rest
      only := fun name c hc => ?only
      separate := fun name name' c hc hc' => ?separate
      bindings := fun r hlt => ⟨?parent, fun name => ?bindings⟩
      cells := fun c hc => Scopes.cell_supply_of_lt _ hc
      objects := ?objects
      arrays := fun a ha => elements_collect_of_has p values ha
      same := rfl }
  case fixed =>
    have hmem : (⟨p.fixed[i].name, types[i], values[i]⟩ : Supplied) ∈
        p.supply types values ⟨m.heap.arrays.size⟩ := by
      refine List.mem_append_right _ (List.mem_reverse.mpr (List.mem_iff_getElem.mpr ⟨i, ?_, ?_⟩))
      · rwa [length_fixedSupply hvalues htypes]
      · simp [Procedure.fixedSupply]
    obtain ⟨c, hc, hcell⟩ := Scopes.supply_of_mem hr hnodup hmem
    exact ⟨c, types[i], values[i], List.getElem?_eq_getElem _, List.getElem?_eq_getElem _, hc, hcell⟩
  case rest =>
    have hmem : (⟨q.name, none, .array ⟨m.heap.arrays.size⟩⟩ : Supplied) ∈
        p.supply types values ⟨m.heap.arrays.size⟩ := by
      refine List.mem_append_left _ ?_
      rw [Procedure.restSupply, hq]
      exact List.mem_singleton_self _
    obtain ⟨c, hc, hcell⟩ := Scopes.supply_of_mem hr hnodup hmem
    refine ⟨c, ⟨m.heap.arrays.size⟩, hc, hcell, Nat.lt_irrefl _, ?_, elements_collect hq values m.heap⟩
    simp [began, Heap.Has, Procedure.collect, hq, Heap.addArray]
  case only =>
    obtain ⟨k, hk, rfl, rfl⟩ :=
      Scopes.exists_getElem_of_findLocal? hr hnodup (findLocal?_opened m name) hc
    refine ⟨Nat.le_add_right _ _, ?_⟩
    have hmem := List.mem_map_of_mem (f := (·.name)) (List.getElem_mem hk)
    rw [map_name_supply hvalues htypes] at hmem
    obtain ⟨q, hq, hname⟩ := List.mem_map.mp hmem
    exact ⟨q, (perm_parameters p).mem_iff.mp hq, hname⟩
  case separate =>
    obtain ⟨k, hk, rfl, rfl⟩ :=
      Scopes.exists_getElem_of_findLocal? hr hnodup (findLocal?_opened m name) hc
    obtain ⟨k', hk', rfl, heq⟩ :=
      Scopes.exists_getElem_of_findLocal? hr hnodup (findLocal?_opened m name') hc'
    obtain rfl : k = k' := Nat.add_left_cancel (congrArg CellRef.index heq)
    rfl
  case parent => exact (Scopes.parent?_supply ..).trans (Scopes.addChild_parent?_of_lt _ _ hlt)
  case bindings =>
    exact (Scopes.findLocal?_supply_of_scope_ne _ (hold hlt) name).trans
      (Scopes.findLocal?_addChild _ _ hlt name)
  case objects =>
    change (p.collect values m.heap).objects = m.heap.objects
    unfold Procedure.collect
    cases p.rest <;> rfl

/-! ### The call -/

/-- The activation of a procedure whose parameters have different names runs its body from where it
begins. -/
theorem activation_eq_runStatements {p : Procedure} {values : List Value}
    {types : List (Option ObjectRef)} (pos : Position) (htakes : p.Takes values.length)
    (htypes : types.length = p.fixed.length) (hnames : (p.parameters.map (·.name)).Nodup)
    (m : Machine) :
    activation self p values.length types pos (opened (supplied m values)) =
      runStatements self p.body.statements (began p types values m) := by
  have hvacant : (opened (supplied m values)).scopes.Vacant (opened (supplied m values)).current
      ((p.rest.toList ++ p.fixed.reverse).map (·.name)) :=
    ⟨((perm_parameters p).map _).nodup_iff.mpr hnames, fun name _ => findLocal?_opened _ name⟩
  have hbind := bindParameters_of_vacant pos htakes htypes (current_lt_opened _) hvacant
    (s := m.operands) rfl
  unfold activation
  rw [bind_of_ok hbind]
  rfl

/-- Pushing the values of a call keeps the machine sound. -/
theorem sound_supplied {m : Machine} (hm : m.Sound) (values : List Value) : (supplied m values).Sound :=
  ⟨hm.nested, hm.current_lt, hm.genuine⟩

/-- However the body of a call ends, it leaves scopes and operands in order. -/
theorem activation_ending_supplied (n : Nat) {p : Procedure} {values : List Value}
    {types : List (Option ObjectRef)} (pos : Position) (htakes : p.Takes values.length)
    (htypes : types.length = p.fixed.length) {m : Machine} (hm : m.Sound) :
    ActivationEnding m.operands (opened (supplied m values))
      (activation (run n) p values.length types pos (opened (supplied m values))) := by
  have hlength : types.length = min p.fixed.length values.length := by
    rw [htypes, Nat.min_eq_left htakes.le]
  exact (activation_ending (run_trusted n) pos ((p.accepts_iff_takes _).mpr htakes) hlength
    (follows_opened (sound_supplied hm values)).is_sound rfl).2

/-- After the activation, the call ends with zero, with the returned value or with the interruption. -/
theorem enter_concludes (n : Nat) {p : Procedure} {values : List Value}
    {types : List (Option ObjectRef)} (pos : Position) (htakes : p.Takes values.length)
    (htypes : types.length = p.fixed.length) {m : Machine} (hm : m.Sound) :
    Concludes m (activation (run n) p values.length types pos (opened (supplied m values)))
      (enter (run n) p values.length types m.operands.height pos (supplied m values)) := by
  have hm' := sound_supplied hm values
  have hending := activation_ending_supplied n pos htakes htypes hm
  rw [enter_apply]
  revert hending
  match activation (run n) p values.length types pos (opened (supplied m values)) with
  | .ok () s =>
    rintro ⟨hf, hc, ho⟩
    dsimp only
    rw [bind_of_ok (closeScope_of_opened hm' hf hc pos), bind_of_ok (pushOperand_apply _ _),
      popOperand_of_push rfl pos, ho]
    exact .finished
  | .error (.returned _) s =>
    rintro ⟨hf, hw, v, hv⟩
    dsimp only
    rw [bind_of_ok (closeUntil_of_within pos hf.is_sound hw (Nat.lt_succ_self _))]
    have hf' : (opened (supplied m values)).Follows
        { s with current := (opened (supplied m values)).current } :=
      hf.move (lt_of_lt_of_le (current_lt_opened _) hf.grown.size_le) s.operands
    rw [bind_of_ok (closeScope_of_opened hm' hf' rfl pos)]
    have hpop : popOperand pos { s with current := m.current } =
        .ok v { s with current := m.current, operands := m.operands } :=
      popOperand_of_push (show ({ s with current := m.current } : Machine).operands = _ from hv) pos
    refine Eq.subst (motive := Concludes m _) hpop.symm ?_
    exact .returned hv
  | .error (.raised _) s => exact fun _ => .interrupted nofun
  | .error (.exited _) s => exact fun _ => .interrupted nofun
  | .error (.awaiting _) s => exact fun _ => .interrupted nofun
  | .error .exhausted s => exact fun _ => .interrupted nofun

/-- A call that fails after the procedure was entered leaves a scope behind. -/
theorem size_lt_of_enter {n : Nat} {p : Procedure} {values : List Value}
    {types : List (Option ObjectRef)} {pos : Position} (htakes : p.Takes values.length)
    (htypes : types.length = p.fixed.length) {m m' : Machine} (hm : m.Sound) {d : Diagnostic}
    (hraised : enter (run n) p values.length types m.operands.height pos (supplied m values) =
      .error (.raised d) m') :
    m.scopes.scopes.size < m'.scopes.scopes.size := by
  have hending := activation_ending_supplied n pos htakes htypes hm
  have hconcludes := enter_concludes n pos htakes htypes hm
  rw [hraised] at hconcludes
  revert hending hconcludes
  match activation (run n) p values.length types pos (opened (supplied m values)) with
  | .ok _ _ => exact fun _ hconcludes => nomatch hconcludes
  | .error _ s =>
    intro hending hconcludes
    cases hconcludes with
    | interrupted _ =>
      have hsize := hending.1.grown.size_le
      exact Nat.lt_of_lt_of_le (current_lt_opened (supplied m values)) hsize

/-- If two parameters share their name, the call fails, and the caller has its scope and its operands. -/
theorem enter_of_clash (n : Nat) {p : Procedure} {values : List Value}
    {types : List (Option ObjectRef)} (pos : Position) (htakes : p.Takes values.length)
    (htypes : types.length = p.fixed.length) (hnames : ¬ (p.parameters.map (·.name)).Nodup)
    {m : Machine} (hm : m.Sound) :
    ∃ q ∈ p.parameters, ∃ m', enter (run n) p values.length types m.operands.height pos
        (supplied m values) =
      .error (.raised ((Problem.alreadyDefined q.name).diagnostic m.file q.pos)) m' ∧
      m'.current = m.current ∧ m'.operands = m.operands := by
  have hclash : ¬ ((p.rest.toList ++ p.fixed.reverse).map (·.name)).Nodup :=
    fun hnodup => hnames (((perm_parameters p).map _).nodup_iff.mp hnodup)
  obtain ⟨q, hq, s, hbind⟩ := bindParameters_of_not_vacant pos htakes htypes
    (current_lt_opened (supplied m values)) (findLocal?_opened _) hclash (s := m.operands) rfl
  have hactivation : activation (run n) p values.length types pos (opened (supplied m values)) =
      .error (.raised ((Problem.alreadyDefined q.name).diagnostic m.file q.pos)) s :=
    bind_of_error hbind
  have hending := activation_ending_supplied n pos htakes htypes hm
  rw [hactivation] at hending
  obtain ⟨-, ⟨vs, hvs⟩, -⟩ := hending
  have hconcludes := enter_concludes n pos htakes htypes hm
  rw [hactivation] at hconcludes
  generalize enter (run n) p values.length types m.operands.height pos (supplied m values) = result
    at hconcludes ⊢
  cases hconcludes with
  | interrupted _ => exact ⟨q, hq, _, rfl, rfl, by rw [hvs, Operands.unwindTo_pushAll]⟩

/-- A call that suits a procedure enters it. -/
theorem callProcedure_of_suits {p : Procedure} {receiver : Option ObjectRef}
    {arguments values : List Value} (hvalues : values = (receiver.map Value.object).toList ++ arguments)
    (htakes : p.Takes values.length) {m m₁ : Machine} {types : List (Option ObjectRef)}
    (hsuits : Suits self p values m types m₁) (pos : Position) :
    callProcedure self p receiver arguments pos m =
      enter self p values.length types m₁.operands.height pos (supplied m₁ values) := by
  unfold callProcedure
  rw [← hvalues, if_pos ((p.accepts_iff_takes _).mpr htakes),
    bind_of_ok ((checkArguments_eq_ok_iff htakes.le).mpr hsuits)]
  rfl

end

/-- **Arguments reach the right parameters.** The arguments of a call are evaluated in order, spread ones to
the elements of their arrays, and a call expression does what the call with these values does.

Of a call with the values `values`, the receiver first, the following holds.  If their number is wrong, the
call is refused, and nothing but the error is recorded.  Otherwise the values are checked, and if they suit
the declared types, the procedure is entered, so that the call is not refused in this way.  If the names of
the parameters are different, the body begins with exactly these parameters in a new scope, and the call
ends after it; if not, the call fails with an error about one of them, and the caller has its scope and its
operands. -/
theorem arguments_reach_parameters (n : Nat) :
    (∀ es m values m', evaluateArguments (run n) es m = .ok values m' ↔
      Supplies (run n) es m values m') ∧
    (∀ callee es pos m p receiver arguments m',
      Issues (run n) callee es pos m p receiver arguments m' →
        run (n + 1) (.expression (.call callee es pos)) m =
          run n (.call (.procedure p) receiver arguments pos) m') ∧
    ∀ p receiver arguments values pos m, m.Sound →
      values = (receiver.map Value.object).toList ++ arguments →
      (¬ p.Takes values.length → ∃ d, d.kind = .argument ∧
        run (n + 1) (.call (.procedure p) receiver arguments pos) m =
          .error (.raised d) { m with raised := m.raised ++ [d] }) ∧
      (p.Takes values.length →
        (∀ e m₁, checkArguments (run n) p values pos m = .error e m₁ →
          run (n + 1) (.call (.procedure p) receiver arguments pos) m = .error e m₁) ∧
        ∀ types m₁, Suits (run n) p values m types m₁ →
          (m₁.current = m.current ∧ m₁.operands = m.operands) ∧
          (∀ d, run (n + 1) (.call (.procedure p) receiver arguments pos) m ≠
            .error (.raised d) { m with raised := m.raised ++ [d] }) ∧
          ((p.parameters.map (·.name)).Nodup → ∃ s, Begins p types values m₁ s ∧
            Concludes m₁ (runStatements (run n) p.body.statements s)
              (run (n + 1) (.call (.procedure p) receiver arguments pos) m)) ∧
          (¬ (p.parameters.map (·.name)).Nodup → ∃ q ∈ p.parameters, ∃ d m',
            d = (Problem.alreadyDefined q.name).diagnostic m.file q.pos ∧ d.kind = .redefinition ∧
            run (n + 1) (.call (.procedure p) receiver arguments pos) m = .error (.raised d) m' ∧
            m'.current = m.current ∧ m'.operands = m.operands)) := by
  refine ⟨fun es m values m' => ⟨supplies_of_evaluateArguments, evaluateArguments_of_supplies⟩,
    fun callee es pos m p receiver arguments m' hissues => callExpression_of_issues hissues, ?_⟩
  intro p receiver arguments values pos m hm hvalues
  have hcall : run (n + 1) (.call (.procedure p) receiver arguments pos) m =
      callProcedure (run n) p receiver arguments pos m := rfl
  rw [hcall]
  refine ⟨fun hcount => ?_, fun htakes => ⟨fun e m₁ herror => ?_, fun types m₁ hsuits => ?_⟩⟩
  · unfold callProcedure
    rw [← hvalues, if_neg (fun haccepts => hcount ((p.accepts_iff_takes _).mp haccepts)), raise_apply]
    exact ⟨_, rfl, rfl⟩
  · unfold callProcedure
    rw [← hvalues, if_pos ((p.accepts_iff_takes _).mpr htakes), bind_of_error herror]
  · have hcheck : checkArguments (run n) p values pos m = .ok types m₁ :=
      (checkArguments_eq_ok_iff htakes.le).mpr hsuits
    have hending := (Kept.checkArguments (run_trusted n) p values pos m hm).ending
    rw [hcheck] at hending
    obtain ⟨hfollows, hcurrent, hoperands⟩ := hending
    have hm₁ := hfollows.is_sound
    obtain ⟨m₀, hpasses, -⟩ := id hsuits
    have htypes := hpasses.length_eq
    rw [callProcedure_of_suits hvalues htakes hsuits]
    refine ⟨⟨hcurrent, hoperands⟩, fun d hd => ?_, fun hnames => ?_, fun hnames => ?_⟩
    · have hsize := size_lt_of_enter htakes htypes hm₁ hd
      exact absurd hfollows.grown.size_le (Nat.not_le.mpr hsize)
    · refine ⟨_, begins_began htakes.le htypes hnames m₁, ?_⟩
      rw [← activation_eq_runStatements pos htakes htypes hnames]
      exact enter_concludes n pos htakes htypes hm₁
    · obtain ⟨q, hq, m', henter, hcurrent', hoperands'⟩ :=
        enter_of_clash n pos htakes htypes hnames hm₁
      rw [hfollows.file_eq] at henter
      exact ⟨q, hq, _, m', rfl, rfl, henter, hcurrent'.trans hcurrent, hoperands'.trans hoperands⟩

/-- The procedure `func (a: Int, b, *last) { return b; }`, where `last` is any name. -/
def collecting (last : String) : Procedure :=
  ⟨[⟨"a", some (.variable "Int" ⟨1, 10⟩), ⟨1, 7⟩⟩, ⟨"b", none, ⟨1, 15⟩⟩], some ⟨last, none, ⟨1, 19⟩⟩,
    ⟨[.returnWith (.variable "b" ⟨1, 34⟩) ⟨1, 27⟩], ⟨1, 25⟩⟩, ⟨1, 1⟩, default⟩

set_option maxRecDepth 4000 in
/-- On a new machine, a call of `collecting` with four values begins its body, one with a single value is
refused, and so is one where the name of the last parameter is that of the first one. -/
theorem arguments_reach_parameters_collecting :
    (Machine.bare.Sound ∧ ∀ last, (collecting last).Takes 4 ∧ ¬ (collecting last).Takes 1 ∧
      Suits (run 2) (collecting last) [.int 1, .int 2, .int 3, .int 4] .bare
        [some CoreType.int.ref, none] .bare) ∧
    (∃ s, Begins (collecting "rest") [some CoreType.int.ref, none] [.int 1, .int 2, .int 3, .int 4]
        .bare s ∧
      Concludes .bare (runStatements (run 2) (collecting "rest").body.statements s)
        (run 3 (.call (.procedure (collecting "rest")) none [.int 1, .int 2, .int 3, .int 4] ⟨2, 1⟩)
          .bare)) ∧
    (∃ d, d.kind = .argument ∧
      run 3 (.call (.procedure (collecting "rest")) none [.int 1] ⟨2, 1⟩) .bare =
        .error (.raised d) { Machine.bare with raised := [d] }) ∧
    ∃ d m', d.kind = .redefinition ∧
      run 3 (.call (.procedure (collecting "a")) none [.int 1, .int 2, .int 3, .int 4] ⟨2, 1⟩) .bare =
        .error (.raised d) m' ∧ m'.current = Scopes.root ∧ m'.operands = .empty := by
  have hm : Machine.bare.Sound := Machine.fresh_sound "main" (.replayed []) []
  have htakes (last : String) : (collecting last).Takes 4 := .inr ⟨nofun, by simp [collecting]⟩
  have hmiss (last : String) : ¬ (collecting last).Takes 1 := by
    rintro (⟨hnone, -⟩ | ⟨-, hle⟩)
    · cases hnone
    · simp [collecting] at hle
  have hsuits (last : String) : Suits (run 2) (collecting last) [.int 1, .int 2, .int 3, .int 4] .bare
      [some CoreType.int.ref, none] .bare :=
    ⟨.bare, .typed rfl rfl ⟨CoreType.int.ref, rfl, by decide +kernel⟩ (.untyped rfl .nil), rfl⟩
  obtain ⟨-, -, hcalls⟩ := arguments_reach_parameters 2
  obtain ⟨hrefused, -⟩ := hcalls (collecting "rest") none [.int 1] _ ⟨2, 1⟩ .bare hm rfl
  obtain ⟨-, hbegins⟩ :=
    hcalls (collecting "rest") none [.int 1, .int 2, .int 3, .int 4] _ ⟨2, 1⟩ .bare hm rfl
  obtain ⟨-, hclashes⟩ :=
    hcalls (collecting "a") none [.int 1, .int 2, .int 3, .int 4] _ ⟨2, 1⟩ .bare hm rfl
  obtain ⟨-, -, hbegins, -⟩ := (hbegins (htakes _)).2 _ _ (hsuits _)
  obtain ⟨-, -, -, hclashes⟩ := (hclashes (htakes _)).2 _ _ (hsuits _)
  obtain ⟨-, -, d, m', -, hkind, hraised, hcurrent, hoperands⟩ := hclashes (by decide)
  exact ⟨⟨hm, fun last => ⟨htakes last, hmiss last, hsuits last⟩⟩, hbegins (by decide),
    hrefused (hmiss _), d, m', hkind, hraised, hcurrent, hoperands⟩

end Eval

end ProtoScript
