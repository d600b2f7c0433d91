import Mathlib.Data.Finmap
import ProtoScript.Proofs.Steady.Machine

/-!
# Scopes as a stack of maps

What a program does with names, and two accounts of it.  In the first one, `Standpoint.step`, scopes are bound
to cells, and what is found is a cell.  In the second one, `Frames.step`, there are no cells: the scopes
around a point of a program are a list of finite maps from names to variables, the innermost one first.

The two agree on the results of every sequence of operations that starts in an empty root scope.
`Represents` relates the scopes around one of them to a list of maps; it is kept by each operation because
every cell is bound under one name in one scope only, which is a part of `Standpoint.Tidy`.
-/

namespace ProtoScript

/-! ## Operations -/

/-- What a program does with names. -/
inductive ScopeOperation where
  /-- Opens a scope inside the current one. -/
  | openScope
  /-- Goes back to the scope around the current one. -/
  | closeScope
  /-- Declares a name in the current scope. -/
  | declare (name : String) (type : Option ObjectRef)
  /-- Looks for a name in the current scope, and unless `inner` is set in those around it. -/
  | find (name : String) (inner : Bool)
  /-- Gives the nearest variable of a name a value. -/
  | assign (name : String) (v : Value)

/-- How an operation ends. What it finds, or declares, is a `σ`. -/
inductive ScopeAnswer (σ : Type) where
  | done
  | failed
  | found (symbol : σ)

/-- What is seen of the symbol in an answer. -/
def ScopeAnswer.map {σ τ : Type} (f : σ → τ) : ScopeAnswer σ → ScopeAnswer τ
  | done => done
  | failed => failed
  | found symbol => found (f symbol)

/-- The answer of a search. -/
def ScopeAnswer.ofFound {σ : Type} : Option σ → ScopeAnswer σ
  | some symbol => found symbol
  | none => failed

/-- A variable as it is seen: the type it was declared with, and its value. -/
structure Variable where
  type : Option ObjectRef
  value : Value

/-- What is seen of a cell. -/
def Scopes.variableAt (s : Scopes) (c : CellRef) : Variable :=
  ⟨(s.cell c).type, (s.cell c).value⟩

/-! ### Scopes with cells -/

/-- All scopes, and the one that is current. -/
structure Standpoint where
  scopes : Scopes
  current : ScopeRef

namespace Standpoint

/-- A root scope without bindings. -/
def start : Standpoint := ⟨.initial, Scopes.root⟩

/-- The cell of a name, in the current scope only or also in those around it. -/
def find? (p : Standpoint) (inner : Bool) (name : String) : Option CellRef :=
  if inner then p.scopes.findLocal? p.current name else p.scopes.find? p.current name

/-- Does an operation. -/
def step (p : Standpoint) : ScopeOperation → ScopeAnswer CellRef × Standpoint
  | .openScope => (.done, ⟨(p.scopes.addChild p.current).2, (p.scopes.addChild p.current).1⟩)
  | .closeScope =>
    match p.scopes.parent? p.current with
    | some r => (.done, { p with current := r })
    | none => (.failed, p)
  | .declare name type =>
    match p.scopes.declare? p.current name type with
    | some (c, s) => (.found c, { p with scopes := s })
    | none => (.failed, p)
  | .find name inner => (.ofFound (p.find? inner name), p)
  | .assign name v =>
    match p.scopes.assign? p.current name v with
    | some s => (.done, { p with scopes := s })
    | none => (.failed, p)

/-- Does operations one after the other: what is seen of their answers, and where that leads. -/
def run (p : Standpoint) : List ScopeOperation → List (ScopeAnswer Variable) × Standpoint
  | [] => ([], p)
  | op :: ops =>
    let first := p.step op
    let rest := first.2.run ops
    (first.1.map first.2.scopes.variableAt :: rest.1, rest.2)

/-- Where operations lead. -/
def after (p : Standpoint) (ops : List ScopeOperation) : Standpoint := (p.run ops).2

@[simp] theorem after_nil (p : Standpoint) : p.after [] = p := rfl

@[simp] theorem after_cons (p : Standpoint) (op : ScopeOperation) (ops : List ScopeOperation) :
    p.after (op :: ops) = (p.step op).2.after ops := rfl

/-- Operations one after the other. -/
theorem after_append (p : Standpoint) (ops ops' : List ScopeOperation) :
    p.after (ops ++ ops') = (p.after ops).after ops' := by
  induction ops generalizing p with
  | nil => rfl
  | cons op ops ih => exact ih _

end Standpoint

/-! ### Maps without cells -/

/-- What one scope binds. -/
abbrev Frame := Finmap fun _ : String => Variable

namespace Frames

/-- The innermost variable of a name, or that of the innermost map only. -/
def find? (inner : Bool) (name : String) : List Frame → Option Variable
  | [] => none
  | f :: fs =>
    match f.lookup name with
    | some x => some x
    | none => if inner then none else find? inner name fs

/-- Gives the innermost variable of a name a value. -/
def assign? (name : String) (v : Value) : List Frame → Option (List Frame)
  | [] => none
  | f :: fs =>
    match f.lookup name with
    | some x => some (f.insert name { x with value := v } :: fs)
    | none => (assign? name v fs).map (f :: ·)

/-- Does an operation. -/
def step : List Frame → ScopeOperation → ScopeAnswer Variable × List Frame
  | fs, .openScope => (.done, ∅ :: fs)
  | _ :: f :: fs, .closeScope => (.done, f :: fs)
  | fs, .closeScope => (.failed, fs)
  | f :: fs, .declare name type =>
    if name ∈ f then (.failed, f :: fs)
    else (.found ⟨type, .null⟩, f.insert name ⟨type, .null⟩ :: fs)
  | [], .declare _ _ => (.failed, [])
  | fs, .find name inner => (.ofFound (find? inner name fs), fs)
  | fs, .assign name v =>
    match assign? name v fs with
    | some fs' => (.done, fs')
    | none => (.failed, fs)

/-- Does operations one after the other. -/
def run (fs : List Frame) : List ScopeOperation → List (ScopeAnswer Variable) × List Frame
  | [] => ([], fs)
  | op :: ops =>
    let first := step fs op
    let rest := run first.2 ops
    (first.1 :: rest.1, rest.2)

end Frames

/-! ## Looking for a name -/

namespace Scopes

variable {s : Scopes}

/-- The scope around another one is older. -/
theorem Nested.parent_lt (hs : s.Nested) {r p : ScopeRef} (hr : r.index < s.scopes.size)
    (hp : s.parent? r = some p) : p.index < r.index := by
  have hne : r ≠ root := by
    rintro rfl
    rw [hs.root_parent] at hp
    cases hp
  obtain ⟨q, hq, holder⟩ := hs.parent_older r hr hne
  obtain rfl : q = p := Option.some.inj (hq.symm.trans hp)
  exact holder

/-- A search that may go through as many scopes as there are before a scope, and that scope, finds what
it would find with more. -/
theorem findWithin?_eq (hs : s.Nested) (name : String) {r : ScopeRef} (hr : r.index < s.scopes.size)
    {fuel fuel' : Nat} (hfuel : r.index < fuel) (hfuel' : r.index < fuel') :
    s.findWithin? name fuel r = s.findWithin? name fuel' r := by
  induction fuel generalizing r fuel' with
  | zero => exact absurd hfuel (Nat.not_lt_zero _)
  | succ fuel ih =>
    obtain ⟨fuel', rfl⟩ : ∃ n, fuel' = n + 1 := ⟨fuel' - 1, by omega⟩
    unfold findWithin?
    cases s.findLocal? r name with
    | some c => rfl
    | none =>
      cases hp : s.parent? r with
      | none => rfl
      | some p =>
        have holder := hs.parent_lt hr hp
        exact ih (by omega) (by omega) (by omega)

/-- A search looks in the scope itself, and then in the one around it. -/
theorem find?_eq (hs : s.Nested) (name : String) {r : ScopeRef} (hr : r.index < s.scopes.size) :
    s.find? r name =
      match s.findLocal? r name with
      | some c => some c
      | none => (s.parent? r).bind fun p => s.find? p name := by
  have hone : s.find? r name = s.findWithin? name (r.index + 1) r :=
    findWithin?_eq hs name hr hr (Nat.lt_succ_self _)
  rw [hone, findWithin?]
  cases s.findLocal? r name with
  | some c => rfl
  | none =>
    cases hp : s.parent? r with
    | none => rfl
    | some p =>
      have hlt := hs.parent_lt hr hp
      exact findWithin?_eq hs name (lt_trans hlt hr) hlt (lt_trans hlt hr)

/-- From a scope that was there before, names are found as before, if all earlier scopes are as they
were. -/
theorem Retained.find?_eq {t : Scopes} (h : s.Retained t) (hs : s.Nested) (ht : t.Nested)
    (name : String) {r : ScopeRef} (hr : r.index < s.scopes.size) :
    t.find? r name = s.find? r name := by
  obtain ⟨i⟩ := r
  induction i using Nat.strong_induction_on with
  | _ i ih =>
    rw [Scopes.find?_eq ht name (lt_of_lt_of_le hr h.size_le), Scopes.find?_eq hs name hr,
      h.findLocal?_eq _ hr, h.parent?_eq _ hr]
    cases s.findLocal? ⟨i⟩ name with
    | some c => rfl
    | none =>
      cases hq : s.parent? ⟨i⟩ with
      | none => rfl
      | some q =>
        have holder : q.index < i := hs.parent_lt hr hq
        exact ih q.index holder (lt_trans holder hr)

/-- What a search finds is bound in the scope itself or in one around it. -/
theorem exists_findLocal?_of_find? (hs : s.Nested) {name : String} {r : ScopeRef}
    (hr : r.index < s.scopes.size) {c : CellRef} (hc : s.find? r name = some c) :
    ∃ q, s.findLocal? q name = some c := by
  obtain ⟨i⟩ := r
  induction i using Nat.strong_induction_on with
  | _ i ih =>
    rw [find?_eq hs name hr] at hc
    cases hlocal : s.findLocal? ⟨i⟩ name with
    | some d =>
      rw [hlocal] at hc
      obtain rfl := Option.some.inj hc
      exact ⟨_, hlocal⟩
    | none =>
      rw [hlocal] at hc
      obtain ⟨p, hp, hfind⟩ := Option.bind_eq_some_iff.mp hc
      have holder : p.index < i := hs.parent_lt hr hp
      exact ih p.index holder (lt_trans holder hr) hfind

end Scopes

/-! ## Scopes in order -/

namespace Scopes

/-- Scopes are nested, and each cell is bound under one name in one scope at most. -/
structure Tidy (s : Scopes) : Prop where
  nested : s.Nested
  cell_lt : ∀ r name c, s.findLocal? r name = some c → c.index < s.cells.size
  unique : ∀ r name r' name' c, s.findLocal? r name = some c → s.findLocal? r' name' = some c →
    r = r' ∧ name = name'

variable {s : Scopes}

/-- A new scope binds nothing. -/
theorem findLocal?_addChild_self (s : Scopes) (r : ScopeRef) (name : String) :
    (s.addChild r).2.findLocal? (s.addChild r).1 name = none := by
  simp [addChild, findLocal?, scope]

/-- A new scope binds nothing, and the others bind what they bound. -/
theorem findLocal?_addChild_eq (s : Scopes) (r q : ScopeRef) (name : String) :
    (s.addChild r).2.findLocal? q name = s.findLocal? q name := by
  by_cases hq : q.index < s.scopes.size
  · exact findLocal?_addChild s r hq name
  · have hnone : s.findLocal? q name = none := by
      cases hc : s.findLocal? q name with
      | none => rfl
      | some c => exact absurd (lt_of_findLocal? hc) hq
    rw [hnone]
    cases hc : (s.addChild r).2.findLocal? q name with
    | none => rfl
    | some c =>
      have hlt := lt_of_findLocal? hc
      rw [addChild_size] at hlt
      obtain rfl : q = (s.addChild r).1 := by
        obtain ⟨i⟩ := q
        exact congrArg ScopeRef.mk (show i = s.scopes.size by simp only at hq hlt; omega)
      rw [findLocal?_addChild_self] at hc
      cases hc

/-- Binding a name changes what this name is bound to in this scope, and no other binding. -/
theorem findLocal?_bind {r : ScopeRef} (hr : r.index < s.scopes.size) (name : String)
    (type : Option ObjectRef) (q : ScopeRef) (other : String) :
    (s.bind r name type).2.findLocal? q other =
      if r = q ∧ name = other then some ⟨s.cells.size⟩ else s.findLocal? q other := by
  by_cases hq : r = q
  · by_cases hname : name = other
    · rw [if_pos ⟨hq, hname⟩, ← hq, ← hname]
      exact findLocal?_bind_self hr name type
    · rw [if_neg fun h => hname h.2]
      exact findLocal?_bind_of_ne s r q type hname
  · rw [if_neg fun h => hq h.1]
    exact findLocal?_bind_of_scope_ne s name other type hq

@[simp] theorem cells_size_bind (s : Scopes) (r : ScopeRef) (name : String)
    (type : Option ObjectRef) : (s.bind r name type).2.cells.size = s.cells.size + 1 := by
  simp [bind]

@[simp] theorem cells_size_put (s : Scopes) (c : CellRef) (v : Value) :
    (s.put c v).cells.size = s.cells.size := by
  simp [put]

/-- Opening a scope keeps the scopes tidy. -/
theorem Tidy.addChild (hs : s.Tidy) {r : ScopeRef} (hr : r.index < s.scopes.size) :
    (s.addChild r).2.Tidy := by
  refine ⟨hs.nested.addChild hr, fun q name c hc => ?_, fun q name q' name' c hc hc' => ?_⟩
  · rw [findLocal?_addChild_eq] at hc
    exact hs.cell_lt q name c hc
  · rw [findLocal?_addChild_eq] at hc hc'
    exact hs.unique q name q' name' c hc hc'

/-- Binding a name keeps the scopes tidy. -/
theorem Tidy.bind (hs : s.Tidy) {r : ScopeRef} (hr : r.index < s.scopes.size) (name : String)
    (type : Option ObjectRef) : (s.bind r name type).2.Tidy := by
  -- the cells that are bound already are older than the new one
  have hnew : ∀ q other, s.findLocal? q other ≠ some ⟨s.cells.size⟩ :=
    fun q other hc => Nat.lt_irrefl _ (hs.cell_lt q other _ hc)
  refine ⟨hs.nested.of_same (bind_size s r name type) (bind_parent? s r name type),
    fun q other c hc => ?_, fun q other q' other' c hc hc' => ?_⟩
  · rw [cells_size_bind]
    rw [findLocal?_bind hr] at hc
    split at hc
    · obtain rfl := Option.some.inj hc
      exact Nat.lt_succ_self _
    · exact Nat.lt_succ_of_lt (hs.cell_lt q other c hc)
  · rw [findLocal?_bind hr] at hc hc'
    split at hc <;> split at hc'
    · rename_i h h'
      exact ⟨h.1.symm.trans h'.1, h.2.symm.trans h'.2⟩
    · obtain rfl := Option.some.inj hc
      exact absurd hc' (hnew q' other')
    · obtain rfl := Option.some.inj hc'
      exact absurd hc (hnew q other)
    · exact hs.unique q other q' other' c hc hc'

/-- Filling a cell keeps the scopes tidy. -/
theorem Tidy.put (hs : s.Tidy) (c : CellRef) (v : Value) : (s.put c v).Tidy := by
  refine ⟨hs.nested.of_same rfl fun _ => rfl, fun r name d hd => ?_, hs.unique⟩
  rw [cells_size_put]
  exact hs.cell_lt r name d hd

theorem initial_tidy : initial.Tidy := by
  have hnone : ∀ r name c, initial.findLocal? r name ≠ some c := by
    intro r name c hc
    have hlt : r.index < 1 := lt_of_findLocal? hc
    obtain ⟨i⟩ := r
    obtain rfl : i = 0 := by simpa using hlt
    cases hc
  exact ⟨initial_nested, fun r name c hc => absurd hc (hnone r name c),
    fun r name _ _ c hc _ => absurd hc (hnone r name c)⟩

/-- What is seen of a cell after another one was bound. -/
theorem variableAt_bind_of_lt (s : Scopes) (r : ScopeRef) (name : String) (type : Option ObjectRef)
    {c : CellRef} (hc : c.index < s.cells.size) :
    (s.bind r name type).2.variableAt c = s.variableAt c := by
  simp [variableAt, cell_bind, Nat.ne_of_lt hc]

/-- A cell that was just bound has the declared type and holds null. -/
theorem variableAt_bind_self (s : Scopes) (r : ScopeRef) (name : String) (type : Option ObjectRef) :
    (s.bind r name type).2.variableAt ⟨s.cells.size⟩ = ⟨type, .null⟩ := by
  simp [variableAt, cell_bind, Cell.value]

/-- What is seen of a cell into which a value was put. -/
theorem variableAt_put_self {c : CellRef} (hc : c.index < s.cells.size) (v : Value) :
    (s.put c v).variableAt c = { s.variableAt c with value := v } := by
  simp [variableAt, cell_put, hc, Cell.value]

/-- What is seen of other cells. -/
theorem variableAt_put_of_ne {c d : CellRef} (hne : c ≠ d) (v : Value) :
    (s.put c v).variableAt d = s.variableAt d := by
  simp [variableAt, cell_put, hne]

end Scopes

namespace Standpoint

/-- The scopes are in order, and the current one is one of them. -/
structure Tidy (p : Standpoint) : Prop where
  scopes : p.scopes.Tidy
  current_lt : p.current.index < p.scopes.scopes.size

theorem start_tidy : start.Tidy :=
  ⟨Scopes.initial_tidy, by decide⟩

/-- Every operation leaves the scopes in order. -/
theorem Tidy.step {p : Standpoint} (hp : p.Tidy) (op : ScopeOperation) : (p.step op).2.Tidy := by
  cases op with
  | openScope =>
    refine ⟨hp.scopes.addChild hp.current_lt, ?_⟩
    change p.scopes.scopes.size < (p.scopes.addChild p.current).2.scopes.size
    rw [Scopes.addChild_size]
    exact Nat.lt_succ_self _
  | closeScope =>
    unfold Standpoint.step
    cases hparent : p.scopes.parent? p.current with
    | none => exact hp
    | some r =>
      have holder := hp.scopes.nested.parent_lt hp.current_lt hparent
      exact ⟨hp.scopes, lt_trans holder hp.current_lt⟩
  | declare name type =>
    simp only [Standpoint.step, Scopes.declare?]
    cases p.scopes.findLocal? p.current name with
    | some c => exact hp
    | none =>
      refine ⟨hp.scopes.bind hp.current_lt name type, ?_⟩
      change p.current.index < (p.scopes.bind p.current name type).2.scopes.size
      rw [Scopes.bind_size]
      exact hp.current_lt
  | find name inner => exact hp
  | assign name v =>
    simp only [Standpoint.step, Scopes.assign?]
    cases p.scopes.find? p.current name with
    | none => exact hp
    | some c => exact ⟨hp.scopes.put c v, hp.current_lt⟩

/-- All operations together leave the scopes in order. -/
theorem Tidy.after {p : Standpoint} (hp : p.Tidy) (ops : List ScopeOperation) :
    (p.after ops).Tidy := by
  induction ops generalizing p with
  | nil => exact hp
  | cons op ops ih => exact ih (hp.step op)

end Standpoint

/-! ## Maps that represent scopes -/

/-- A map has what is seen of the cells that a scope binds. -/
def Scopes.Shows (s : Scopes) (r : ScopeRef) (f : Frame) : Prop :=
  ∀ name, (s.findLocal? r name).map s.variableAt = f.lookup name

/-- A list of maps has what is seen of a scope and of those around it. -/
inductive Scopes.Represents (s : Scopes) : ScopeRef → List Frame → Prop
  | outermost {r : ScopeRef} {f : Frame} (hparent : s.parent? r = none) (hf : s.Shows r f) :
    Represents s r [f]
  | inside {r p : ScopeRef} {f : Frame} {fs : List Frame} (hparent : s.parent? r = some p)
    (hf : s.Shows r f) (h : Represents s p fs) : Represents s r (f :: fs)

namespace Scopes

variable {s : Scopes}

/-- A map has the names that the scope binds. -/
theorem Shows.mem_iff {r : ScopeRef} {f : Frame} (hf : s.Shows r f) (name : String) :
    name ∈ f ↔ ∃ c, s.findLocal? r name = some c := by
  rw [← Finmap.lookup_isSome, ← hf name, Option.isSome_map, Option.isSome_iff_exists]

/-- Scopes that bind the same names to cells that look the same are represented by the same maps. -/
theorem Represents.transport {t : Scopes} (hs : s.Nested) {r : ScopeRef} {fs : List Frame}
    (h : s.Represents r fs) (hr : r.index < s.scopes.size)
    (hparent : ∀ q : ScopeRef, q.index ≤ r.index → t.parent? q = s.parent? q)
    (hshows : ∀ (q : ScopeRef) f, q.index ≤ r.index → s.Shows q f → t.Shows q f) :
    t.Represents r fs := by
  induction h with
  | outermost hnone hf =>
    exact .outermost ((hparent _ (Nat.le_refl _)).trans hnone) (hshows _ _ (Nat.le_refl _) hf)
  | @inside r p f fs hsome hf _ ih =>
    have holder := hs.parent_lt hr hsome
    refine .inside ((hparent r (Nat.le_refl _)).trans hsome) (hshows r f (Nat.le_refl _) hf) ?_
    exact ih (by omega) (fun q hq => hparent q (by omega)) fun q f hq => hshows q f (by omega)

/-- A search through the scopes and one through the maps come to the same. -/
theorem Represents.find?_eq (hs : s.Nested) {r : ScopeRef} {fs : List Frame}
    (h : s.Represents r fs) (hr : r.index < s.scopes.size) (name : String) :
    (s.find? r name).map s.variableAt = Frames.find? false name fs := by
  induction h with
  | outermost hnone hf =>
    rw [Scopes.find?_eq hs name hr, Frames.find?, ← hf name, hnone]
    cases s.findLocal? _ name <;> rfl
  | @inside r p f fs hsome hf _ ih =>
    rw [Scopes.find?_eq hs name hr, Frames.find?, ← hf name, hsome]
    cases s.findLocal? r name with
    | some c => rfl
    | none => exact ih (lt_trans (hs.parent_lt hr hsome) hr)

/-- A scope and the innermost map have the same. -/
theorem Represents.findLocal?_eq {r : ScopeRef} {fs : List Frame} (h : s.Represents r fs)
    (name : String) : (s.findLocal? r name).map s.variableAt = Frames.find? true name fs := by
  cases h with
  | outermost _ hf | inside _ hf _ =>
    rw [Frames.find?, ← hf name]
    cases s.findLocal? r name <;> rfl

/-! ### What the operations do to maps -/

/-- The map of the scope in which a cell is bound gets its new value. -/
theorem Shows.put (hs : s.Tidy) {r : ScopeRef} {f : Frame} (hf : s.Shows r f) {name : String}
    {c : CellRef} (hc : s.findLocal? r name = some c) (v : Value) :
    (s.put c v).Shows r (f.insert name { s.variableAt c with value := v }) := by
  intro other
  change (s.findLocal? r other).map (s.put c v).variableAt = _
  by_cases hother : other = name
  · rw [hother, hc, Option.map_some, variableAt_put_self (hs.cell_lt r name c hc),
      Finmap.lookup_insert]
  · rw [Finmap.lookup_insert_of_ne _ hother, ← hf other]
    cases hd : s.findLocal? r other with
    | none => rfl
    | some d =>
      have hne : c ≠ d := by
        rintro rfl
        exact hother (hs.unique r other r name c hd hc).2
      rw [Option.map_some, variableAt_put_of_ne hne, Option.map_some]

/-- The map of a scope in which a cell is not bound stays as it is. -/
theorem Shows.put_of_unbound {q : ScopeRef} {f : Frame} (hf : s.Shows q f) {c : CellRef}
    (hc : ∀ other, s.findLocal? q other ≠ some c) (v : Value) : (s.put c v).Shows q f := by
  intro other
  change (s.findLocal? q other).map (s.put c v).variableAt = _
  rw [← hf other]
  cases hd : s.findLocal? q other with
  | none => rfl
  | some d =>
    have hne : c ≠ d := fun heq => hc other (heq ▸ hd)
    rw [Option.map_some, variableAt_put_of_ne hne, Option.map_some]

/-- An assignment through the scopes and one through the maps change the same variable. -/
theorem Represents.put (hs : s.Tidy) {r : ScopeRef} {fs : List Frame} (h : s.Represents r fs)
    (hr : r.index < s.scopes.size) {name : String} {c : CellRef} (hc : s.find? r name = some c)
    (v : Value) :
    ∃ fs', Frames.assign? name v fs = some fs' ∧ (s.put c v).Represents r fs' := by
  induction h with
  | @outermost r f hnone hf =>
    have hlocal : s.findLocal? r name = some c := by
      rw [Scopes.find?_eq hs.nested name hr, hnone] at hc
      revert hc
      cases s.findLocal? r name with
      | none => exact nofun
      | some d => exact id
    refine ⟨_, ?_, .outermost hnone (hf.put hs hlocal v)⟩
    rw [Frames.assign?, ← hf name, hlocal]
    rfl
  | @inside r p f fs hsome hf hrest ih =>
    have holder := hs.nested.parent_lt hr hsome
    rw [Scopes.find?_eq hs.nested name hr, hsome] at hc
    rw [Frames.assign?, ← hf name]
    cases hlocal : s.findLocal? r name with
    | some d =>
      rw [hlocal] at hc
      obtain rfl := Option.some.inj hc
      refine ⟨_, rfl, .inside hsome (hf.put hs hlocal v) ?_⟩
      -- the scopes around this one are other scopes, so they do not bind the cell
      refine hrest.transport hs.nested (lt_trans holder hr) (fun _ _ => rfl) fun q g hq hg => ?_
      refine hg.put_of_unbound (fun other hother => ?_) v
      obtain rfl := (hs.unique r name q other d hlocal hother).1
      omega
    | none =>
      rw [hlocal] at hc
      obtain ⟨fs', hfs', hrest'⟩ := ih (lt_trans holder hr) hc
      refine ⟨f :: fs', ?_, .inside hsome ?_ hrest'⟩
      · simp only [Option.map_none, hfs', Option.map_some]
      · refine hf.put_of_unbound (fun other hother => ?_) v
        obtain ⟨q, hq⟩ := exists_findLocal?_of_find? hs.nested (lt_trans holder hr) hc
        obtain ⟨rfl, rfl⟩ := hs.unique q name r other c hq hother
        rw [hlocal] at hq
        cases hq

/-- An assignment to a name that is not found fails in the maps too. -/
theorem Represents.assign?_eq_none (hs : s.Nested) {r : ScopeRef} {fs : List Frame}
    (h : s.Represents r fs) (hr : r.index < s.scopes.size) {name : String}
    (hc : s.find? r name = none) (v : Value) : Frames.assign? name v fs = none := by
  have hfind := h.find?_eq hs hr name
  rw [hc, Option.map_none] at hfind
  clear h
  induction fs with
  | nil => rfl
  | cons f fs ih =>
    rw [Frames.find?] at hfind
    rw [Frames.assign?]
    cases hf : f.lookup name with
    | some x =>
      rw [hf] at hfind
      cases hfind
    | none =>
      rw [hf] at hfind
      simp only [ih hfind, Option.map_none]

/-- A new name comes into the map of the scope in which it is bound. -/
theorem Represents.bind (hs : s.Tidy) {r : ScopeRef} {f : Frame} {fs : List Frame}
    (h : s.Represents r (f :: fs)) (hr : r.index < s.scopes.size) (name : String)
    (type : Option ObjectRef) :
    (s.bind r name type).2.Represents r (f.insert name ⟨type, .null⟩ :: fs) := by
  have hinner (hf : s.Shows r f) :
      (s.bind r name type).2.Shows r (f.insert name ⟨type, .null⟩) := by
    intro other
    rw [findLocal?_bind hr]
    by_cases hother : other = name
    · rw [if_pos ⟨rfl, hother.symm⟩, hother, Finmap.lookup_insert, Option.map_some,
        variableAt_bind_self]
    · rw [if_neg fun heq => hother heq.2.symm, Finmap.lookup_insert_of_ne _ hother, ← hf other]
      cases hd : s.findLocal? r other with
      | none => rfl
      | some d =>
        rw [Option.map_some, variableAt_bind_of_lt s r name type (hs.cell_lt r other d hd),
          Option.map_some]
  have houter (q : ScopeRef) (g : Frame) (hq : r ≠ q) (hg : s.Shows q g) :
      (s.bind r name type).2.Shows q g := by
    intro other
    rw [findLocal?_bind hr, if_neg fun heq => hq heq.1, ← hg other]
    cases hd : s.findLocal? q other with
    | none => rfl
    | some d =>
      rw [Option.map_some, variableAt_bind_of_lt s r name type (hs.cell_lt q other d hd),
        Option.map_some]
  cases h with
  | outermost hnone hf =>
    exact .outermost ((bind_parent? s r name type r).trans hnone) (hinner hf)
  | @inside _ p _ _ hsome hf hrest =>
    have holder := hs.nested.parent_lt hr hsome
    refine .inside ((bind_parent? s r name type r).trans hsome) (hinner hf) ?_
    refine hrest.transport hs.nested (lt_trans holder hr)
      (fun q _ => bind_parent? s r name type q) fun q g hq hg => ?_
    refine houter q g ?_ hg
    rintro rfl
    omega

/-- A new scope has an empty map. -/
theorem Represents.addChild (hs : s.Tidy) {r : ScopeRef} {fs : List Frame} (h : s.Represents r fs)
    (hr : r.index < s.scopes.size) :
    (s.addChild r).2.Represents (s.addChild r).1 (∅ :: fs) := by
  refine .inside (addChild_parent?_self s r) (fun name => ?_) ?_
  · rw [findLocal?_addChild_self, Finmap.lookup_empty]
    rfl
  · refine h.transport hs.nested hr (fun q hq => addChild_parent?_of_lt s r (by omega))
      fun q g _ hg name => ?_
    rw [findLocal?_addChild_eq, ← hg name]
    rfl

end Scopes

/-! ## The two accounts agree -/

namespace Standpoint

/-- A list of maps has what is seen of the current scope and of those around it. -/
def Represents (p : Standpoint) (fs : List Frame) : Prop :=
  p.scopes.Represents p.current fs

theorem start_represents : start.Represents [∅] := by
  refine .outermost rfl fun name => ?_
  rw [Finmap.lookup_empty]
  rfl

/-- An operation has the same result on the scopes and on the maps, and leaves maps that represent the
scopes. -/
theorem Represents.step {p : Standpoint} {fs : List Frame} (hp : p.Tidy) (h : p.Represents fs)
    (op : ScopeOperation) :
    (p.step op).1.map (p.step op).2.scopes.variableAt = (Frames.step fs op).1 ∧
      (p.step op).2.Represents (Frames.step fs op).2 := by
  cases op with
  | openScope => exact ⟨rfl, Scopes.Represents.addChild hp.scopes h hp.current_lt⟩
  | closeScope =>
    simp only [Standpoint.step]
    cases h with
    | outermost hnone hf =>
      rw [hnone]
      exact ⟨rfl, .outermost hnone hf⟩
    | inside hsome hf hrest =>
      rw [hsome]
      cases hrest with
      | outermost hnone hg => exact ⟨rfl, .outermost hnone hg⟩
      | inside hsome' hg hrest => exact ⟨rfl, .inside hsome' hg hrest⟩
  | declare name type =>
    obtain ⟨f, fs, rfl, hf⟩ : ∃ g gs, fs = g :: gs ∧ p.scopes.Shows p.current g := by
      cases h with
      | outermost _ hf => exact ⟨_, _, rfl, hf⟩
      | inside _ hf _ => exact ⟨_, _, rfl, hf⟩
    have hmem := hf.mem_iff name
    simp only [Standpoint.step, Scopes.declare?, Frames.step]
    cases hc : p.scopes.findLocal? p.current name with
    | some c =>
      rw [if_pos (hmem.mpr ⟨c, hc⟩)]
      exact ⟨rfl, h⟩
    | none =>
      rw [if_neg fun hname => by obtain ⟨c, hc'⟩ := hmem.mp hname; simp [hc] at hc']
      refine ⟨?_, Scopes.Represents.bind hp.scopes h hp.current_lt name type⟩
      exact congrArg ScopeAnswer.found (Scopes.variableAt_bind_self _ _ name type)
  | find name inner =>
    have hfound : (p.find? inner name).map p.scopes.variableAt = Frames.find? inner name fs := by
      cases inner with
      | true => exact Scopes.Represents.findLocal?_eq h name
      | false => exact Scopes.Represents.find?_eq hp.scopes.nested h hp.current_lt name
    refine ⟨?_, h⟩
    simp only [Standpoint.step, Frames.step]
    rw [← hfound]
    cases p.find? inner name <;> rfl
  | assign name v =>
    simp only [Standpoint.step, Frames.step, Scopes.assign?]
    cases hc : p.scopes.find? p.current name with
    | none =>
      rw [Scopes.Represents.assign?_eq_none hp.scopes.nested h hp.current_lt hc]
      exact ⟨rfl, h⟩
    | some c =>
      obtain ⟨fs', hfs', h'⟩ := Scopes.Represents.put hp.scopes h hp.current_lt hc v
      rw [hfs']
      exact ⟨rfl, h'⟩

/-- All results are the same. -/
theorem Represents.run {p : Standpoint} {fs : List Frame} (hp : p.Tidy) (h : p.Represents fs)
    (ops : List ScopeOperation) :
    (p.run ops).1 = (Frames.run fs ops).1 ∧ (p.after ops).Represents (Frames.run fs ops).2 := by
  induction ops generalizing p fs with
  | nil => exact ⟨rfl, h⟩
  | cons op ops ih =>
    obtain ⟨hanswer, hrest⟩ := h.step hp op
    obtain ⟨hanswers, hend⟩ := ih (hp.step op) hrest
    exact ⟨congrArg₂ List.cons hanswer hanswers, hend⟩

end Standpoint

end ProtoScript
