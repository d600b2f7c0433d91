import ProtoScript.Proofs.Heap.Belonging
import ProtoScript.Proofs.Heap.Evolution
import ProtoScript.Proofs.Scope.Nesting

/-!
# Steady machines

A machine is orderly if its heap is closed, everything that its variables and operands refer to is in the
heap, and every variable that was declared with a nominal type and was given a value holds one that
belongs to the type.  It is steady if the core variables hold the core types besides.

`Machine.Grows m m'` relates the machines at two moments: the heap has grown, variables were added but
none has another declared type than before, and the names of the core types are bound to the same
variables.  The operations on the machine lead from a steady machine to a steady one that has grown
from it, except for an assignment to a core variable.
-/

namespace ProtoScript

namespace Scopes

/-! ## What the operations do to single variables -/

/-- Binding a name adds an empty cell and leaves the others as they are. -/
theorem cell_bind (s : Scopes) (r : ScopeRef) (name : String) (type : Option ObjectRef) (c : CellRef) :
    (s.bind r name type).2.cell c = if c.index = s.cells.size then ⟨type, none⟩ else s.cell c := by
  simp only [bind, cell, Array.getElem?_push]
  split <;> rfl

/-- Filling a cell changes its contents and nothing else. -/
theorem cell_put (s : Scopes) (c d : CellRef) (v : Value) :
    (s.put c v).cell d =
      if c = d ∧ d.index < s.cells.size then { s.cell d with contents := some v } else s.cell d := by
  unfold put cell
  rw [Array.getElem?_modify]
  by_cases hd : d.index < s.cells.size
  · by_cases hcd : c = d
    · simp [hcd, hd]
    · have hindex : c.index ≠ d.index := fun heq => hcd (by cases c; cases d; simpa using heq)
      simp [hcd, hindex]
  · simp [hd]

/-- A name that was just bound has the new cell. -/
theorem findLocal?_bind_self {s : Scopes} {r : ScopeRef} (hr : r.index < s.scopes.size)
    (name : String) (type : Option ObjectRef) :
    (s.bind r name type).2.findLocal? r name = some ⟨s.cells.size⟩ := by
  have hscope : s.scopes[r.index]? = some s.scopes[r.index] := Array.getElem?_eq_getElem hr
  simp [bind, findLocal?, scope, Array.getElem?_modify, hscope, NameMap.get?_insert]

/-- Binding a name does not change what the others are bound to. -/
theorem findLocal?_bind_of_ne (s : Scopes) (r q : ScopeRef) {name other : String}
    (type : Option ObjectRef) (hne : name ≠ other) :
    (s.bind r name type).2.findLocal? q other = s.findLocal? q other := by
  simp only [bind, findLocal?, scope, Array.getElem?_modify]
  split
  · cases s.scopes[q.index]? with
    | none => rfl
    | some sc =>
      have hget := NameMap.get?_insert sc.bindings name other (⟨s.cells.size⟩ : CellRef)
      rw [if_neg hne] at hget
      exact hget
  · rfl

/-- A scope that binds a name is there. -/
theorem lt_of_findLocal? {s : Scopes} {r : ScopeRef} {name : String} {c : CellRef}
    (hc : s.findLocal? r name = some c) : r.index < s.scopes.size := by
  by_contra hlt
  simp only [findLocal?, scope, Array.getElem?_eq_none (Nat.le_of_not_lt hlt), Option.getD_none] at hc
  cases hc

/-- A variable that was given a value is there. -/
theorem lt_of_contents {s : Scopes} {c : CellRef} {v : Value} (hv : (s.cell c).contents = some v) :
    c.index < s.cells.size := by
  by_contra hlt
  simp only [cell, Array.getElem?_eq_none (Nat.le_of_not_lt hlt), Option.getD_none] at hv
  cases hv

end Scopes

namespace Machine

/-! ## Definitions -/

/-- A machine whose variables hold what they may hold. -/
structure Orderly (m : Machine) : Prop where
  closed : m.heap.Closed
  type : ∀ c d, (m.scopes.cell c).type = some d → m.heap.isType d = true
  contents : ∀ c v, (m.scopes.cell c).contents = some v → m.heap.Has v
  honest : ∀ c v d, (m.scopes.cell c).contents = some v → (m.scopes.cell c).type = some d →
    m.heap.IsNominal d → m.heap.Belongs v d
  operands : ∀ v ∈ m.operands.values, m.heap.Has v

/-- An orderly machine whose core variables hold the core types. -/
structure Steady (m : Machine) : Prop extends Orderly m where
  core : m.KeepsCore

/-- The machine at a later moment. -/
structure Grows (m m' : Machine) : Prop where
  heap : m.heap.Grown m'.heap
  cells_le : m.scopes.cells.size ≤ m'.scopes.cells.size
  type_eq : ∀ c, c.index < m.scopes.cells.size → (m'.scopes.cell c).type = (m.scopes.cell c).type
  root_eq : ∀ t : CoreType,
    m'.scopes.findLocal? Scopes.root t.name = m.scopes.findLocal? Scopes.root t.name

/-- A later moment at which the machine is steady. -/
structure Leads (m m' : Machine) : Prop where
  is_steady : m'.Steady
  grows : m.Grows m'

theorem Grows.refl (m : Machine) : m.Grows m :=
  ⟨.refl _, Nat.le_refl _, fun _ _ => rfl, fun _ => rfl⟩

theorem Grows.trans {m m' m'' : Machine} (h : m.Grows m') (h' : m'.Grows m'') : m.Grows m'' := by
  refine ⟨h.heap.trans h'.heap, Nat.le_trans h.cells_le h'.cells_le, fun c hc => ?_, fun t => ?_⟩
  · rw [h'.type_eq c (Nat.lt_of_lt_of_le hc h.cells_le), h.type_eq c hc]
  · rw [h'.root_eq t, h.root_eq t]

theorem Leads.refl {m : Machine} (hm : m.Steady) : m.Leads m :=
  ⟨hm, .refl m⟩

theorem Leads.trans {m m' m'' : Machine} (h : m.Leads m') (h' : m'.Leads m'') : m.Leads m'' :=
  ⟨h'.is_steady, h.grows.trans h'.grows⟩

/-- What is in the heap stays there. -/
theorem Leads.has {m m' : Machine} (h : m.Leads m') {v : Value} (hv : m.heap.Has v) :
    m'.heap.Has v :=
  h.grows.heap.has hv

/-- Values of the heap stay there. -/
theorem Leads.all {m m' : Machine} (h : m.Leads m') {vs : List Value}
    (hvs : ∀ v ∈ vs, m.heap.Has v) : ∀ v ∈ vs, m'.heap.Has v :=
  fun v hv => h.has (hvs v hv)

/-! ## Core variables -/

variable {m m' : Machine}

/-- A core variable is one of the root scope that holds a type. -/
theorem globalType?_eq_some_iff {name : String} {t : ObjectRef} :
    m.globalType? name = some t ↔ ∃ c, m.scopes.findLocal? Scopes.root name = some c ∧
      (m.scopes.cell c).value = .object t ∧ m.heap.isType t = true := by
  unfold globalType?
  constructor
  · intro h
    split at h
    · rename_i c hc
      split at h
      · rename_i o ho
        split at h
        · rename_i htype
          obtain rfl := Option.some.inj h
          exact ⟨c, hc, ho, htype⟩
        · cases h
      · cases h
    · cases h
  · rintro ⟨c, hc, hv, htype⟩
    simp only [hc, hv, htype, if_true]

/-- Core variables are variables of the root scope that were given a value. -/
theorem KeepsCore.lt (hm : m.KeepsCore) {t : CoreType} {c : CellRef}
    (hc : m.scopes.findLocal? Scopes.root t.name = some c) : c.index < m.scopes.cells.size := by
  obtain ⟨c', hc', hv, -⟩ := globalType?_eq_some_iff.mp (hm t)
  obtain rfl : c' = c := Option.some.inj (hc'.symm.trans hc)
  rcases hcontents : (m.scopes.cell c').contents with _ | v
  · simp [Cell.value, hcontents] at hv
  · exact Scopes.lt_of_contents hcontents

/-- Every core name is bound in the root scope. -/
theorem KeepsCore.exists_cell (hm : m.KeepsCore) (t : CoreType) :
    ∃ c, m.scopes.findLocal? Scopes.root t.name = some c := by
  obtain ⟨c, hc, -⟩ := globalType?_eq_some_iff.mp (hm t)
  exact ⟨c, hc⟩

/-- Core variables that are bound as before and hold what they held before hold the core types. -/
theorem KeepsCore.transport (hm : m.KeepsCore) (hheap : m.heap.Grown m'.heap)
    (hroot : ∀ t : CoreType,
      m'.scopes.findLocal? Scopes.root t.name = m.scopes.findLocal? Scopes.root t.name)
    (hcell : ∀ (t : CoreType) (c : CellRef), m.scopes.findLocal? Scopes.root t.name = some c →
      m'.scopes.cell c = m.scopes.cell c) : m'.KeepsCore := by
  intro t
  obtain ⟨c, hc, hv, htype⟩ := globalType?_eq_some_iff.mp (hm t)
  refine globalType?_eq_some_iff.mpr ⟨c, (hroot t).trans hc, ?_, hheap.isType htype⟩
  rw [hcell t c hc]
  exact hv

/-! ## Changing the heap -/

/-- Whatever the heap evolves to, the machine stays steady. -/
theorem Steady.withHeap (hm : m.Steady) {h : Heap} (he : m.heap.Evolves h) :
    m.Leads { m with heap := h } := by
  have hcore := hm.core.isType
  refine ⟨⟨⟨he.closed, ?_, ?_, ?_, ?_⟩, ?_⟩, he.grown, Nat.le_refl _, fun _ _ => rfl, fun _ => rfl⟩
  · intro c d hd
    exact he.grown.isType (hm.type c d hd)
  · intro c v hv
    exact he.grown.has (hm.contents c v hv)
  · rintro c v d hv hd ⟨name, hkind⟩
    have hdtype := hm.type c d hd
    have hnominal : m.heap.IsNominal d :=
      ⟨name, (he.grown.nominal_iff (Heap.has_of_isType hdtype)).mp hkind⟩
    exact he.grown.belongs hm.closed hcore (hm.contents c v hv) hdtype (hm.honest c v d hv hd hnominal)
  · intro v hv
    exact he.grown.has (hm.operands v hv)
  · exact hm.core.transport he.grown (fun _ => rfl) fun _ _ _ => rfl

/-! ## Changing what does not matter -/

/-- A machine with the same heap, variables and operands is steady too. -/
theorem Steady.same (hm : m.Steady) (hheap : m'.heap = m.heap) (hscopes : m'.scopes = m.scopes)
    (hoperands : m'.operands = m.operands) : m.Leads m' := by
  obtain ⟨heap, scopes, current, operands, raised, file, loads, host, events⟩ := m'
  dsimp only at hheap hscopes hoperands
  subst hheap hscopes hoperands
  exact ⟨⟨⟨hm.closed, hm.type, hm.contents, hm.honest, hm.operands⟩,
    hm.core.transport (.refl _) (fun _ => rfl) fun _ _ _ => rfl⟩,
    .refl _, Nat.le_refl _, fun _ _ => rfl, fun _ => rfl⟩

/-- Operands may be exchanged for others that are in the heap. -/
theorem Steady.withOperands (hm : m.Steady) {s : Operands} (hs : ∀ v ∈ s.values, m.heap.Has v) :
    m.Leads { m with operands := s } :=
  ⟨⟨⟨hm.closed, hm.type, hm.contents, hm.honest, hs⟩,
    hm.core.transport (.refl _) (fun _ => rfl) fun _ _ _ => rfl⟩,
    .refl _, Nat.le_refl _, fun _ _ => rfl, fun _ => rfl⟩

/-! ## Opening a scope -/

/-- A new scope inside the current one changes nothing about variables. -/
theorem Steady.opened (hm : m.Steady) :
    m.Leads { m with
      current := (m.scopes.addChild m.current).1, scopes := (m.scopes.addChild m.current).2 } := by
  have hroot (t : CoreType) : (m.scopes.addChild m.current).2.findLocal? Scopes.root t.name =
      m.scopes.findLocal? Scopes.root t.name := by
    obtain ⟨c, hc⟩ := hm.core.exists_cell t
    exact Scopes.findLocal?_addChild _ _ (Scopes.lt_of_findLocal? hc) _
  exact ⟨⟨⟨hm.closed, hm.type, hm.contents, hm.honest, hm.operands⟩,
    hm.core.transport (.refl _) hroot fun _ _ _ => rfl⟩,
    .refl _, Nat.le_refl _, fun _ _ => rfl, hroot⟩

/-! ## Declaring a variable -/

/-- Declaring a name that is not bound in the current scope leaves the other variables alone. -/
theorem Steady.declared (hm : m.Steady) {name : String} {type : Option ObjectRef}
    (hfree : m.scopes.findLocal? m.current name = none)
    (htype : ∀ d, type = some d → m.heap.isType d = true) :
    m.Leads { m with scopes := (m.scopes.bind m.current name type).2 } := by
  have hold {c : CellRef} (hc : c.index < m.scopes.cells.size) :
      (m.scopes.bind m.current name type).2.cell c = m.scopes.cell c := by
    rw [Scopes.cell_bind, if_neg (Nat.ne_of_lt hc)]
  have hroot (t : CoreType) : (m.scopes.bind m.current name type).2.findLocal? Scopes.root t.name =
      m.scopes.findLocal? Scopes.root t.name := by
    by_cases hcurrent : m.current = Scopes.root
    · refine Scopes.findLocal?_bind_of_ne _ _ _ _ fun heq => ?_
      obtain ⟨c, hc⟩ := hm.core.exists_cell t
      rw [hcurrent, heq, hc] at hfree
      cases hfree
    · exact Scopes.findLocal?_bind_of_scope_ne _ _ _ _ hcurrent
  refine ⟨⟨⟨hm.closed, ?_, ?_, ?_, hm.operands⟩, ?_⟩, .refl _, ?_, fun c hc => ?_, hroot⟩
  · intro c d hd
    change ((m.scopes.bind m.current name type).2.cell c).type = some d at hd
    rw [Scopes.cell_bind] at hd
    split at hd
    · exact htype d hd
    · exact hm.type c d hd
  · intro c v hv
    change ((m.scopes.bind m.current name type).2.cell c).contents = some v at hv
    rw [Scopes.cell_bind] at hv
    split at hv
    · cases hv
    · exact hm.contents c v hv
  · intro c v d hv hd hnominal
    change ((m.scopes.bind m.current name type).2.cell c).contents = some v at hv
    change ((m.scopes.bind m.current name type).2.cell c).type = some d at hd
    rw [Scopes.cell_bind] at hv hd
    split at hv
    · cases hv
    · rename_i hne
      rw [if_neg hne] at hd
      exact hm.honest c v d hv hd hnominal
  · exact hm.core.transport (.refl _) hroot fun t c hc => hold (hm.core.lt hc)
  · simp [Scopes.bind]
  · exact congrArg Cell.type (hold hc)

/-! ## Giving a variable a value -/

/-- Whether a variable may be given a value: the value belongs to the type it was declared with, if that
is nominal. -/
def Admits (m : Machine) (c : CellRef) (v : Value) : Prop :=
  ∀ d, (m.scopes.cell c).type = some d → m.heap.IsNominal d → m.heap.Belongs v d

/-- Whether a variable is none of the core variables. -/
def Free (m : Machine) (c : CellRef) : Prop :=
  ∀ t : CoreType, m.scopes.findLocal? Scopes.root t.name ≠ some c

/-- A variable that is admitted a value keeps the machine orderly when it gets it. -/
theorem Steady.put_orderly (hm : m.Steady) {c : CellRef} {v : Value} (hv : m.heap.Has v)
    (hadmits : m.Admits c v) :
    ({ m with scopes := m.scopes.put c v } : Machine).Orderly ∧
      m.Grows { m with scopes := m.scopes.put c v } := by
  have htype (d : CellRef) : ((m.scopes.put c v).cell d).type = (m.scopes.cell d).type := by
    rw [Scopes.cell_put]
    split <;> rfl
  have hcontents {d : CellRef} {w : Value} (hw : ((m.scopes.put c v).cell d).contents = some w) :
      c = d ∧ w = v ∨ (m.scopes.cell d).contents = some w := by
    rw [Scopes.cell_put] at hw
    split at hw
    · rename_i hboth
      exact .inl ⟨hboth.1, (Option.some.inj hw).symm⟩
    · exact .inr hw
  refine ⟨⟨hm.closed, ?_, ?_, ?_, hm.operands⟩, .refl _, ?_, fun d _ => htype d, fun _ => rfl⟩
  · intro e d hd
    exact hm.type e d ((htype e).symm.trans hd)
  · intro e w hw
    rcases hcontents hw with ⟨-, rfl⟩ | hold
    · exact hv
    · exact hm.contents e w hold
  · intro e w d hw hd hnominal
    replace hd := (htype e).symm.trans hd
    rcases hcontents hw with ⟨rfl, rfl⟩ | hold
    · exact hadmits d hd hnominal
    · exact hm.honest e w d hold hd hnominal
  · simp [Scopes.put]

/-- If it is none of the core variables, the machine stays steady. -/
theorem Steady.put (hm : m.Steady) {c : CellRef} {v : Value} (hv : m.heap.Has v)
    (hadmits : m.Admits c v) (hfree : m.Free c) :
    m.Leads { m with scopes := m.scopes.put c v } := by
  obtain ⟨horderly, hgrows⟩ := hm.put_orderly hv hadmits
  refine ⟨⟨horderly, hm.core.transport (.refl _) (fun _ => rfl) fun t d hd => ?_⟩, hgrows⟩
  have hne : c ≠ d := fun heq => hfree t (heq ▸ hd)
  exact (Scopes.cell_put _ _ _ _).trans (if_neg fun hboth => hne hboth.1)

/-- A variable that is declared now is none of the core variables, has the declared type, and holds
nothing. -/
theorem Steady.free_declared (hm : m.Steady) : m.Free ⟨m.scopes.cells.size⟩ :=
  fun _ hc => absurd (hm.core.lt hc) (Nat.lt_irrefl _)

/-- What is none of the core variables stays so. -/
theorem Leads.free (h : m.Leads m') {c : CellRef} (hc : m.Free c) : m'.Free c := by
  intro t ht
  rw [h.grows.root_eq t] at ht
  exact hc t ht

end Machine

end ProtoScript
