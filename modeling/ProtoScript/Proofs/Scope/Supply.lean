import ProtoScript.Proofs.Steady.Machine

/-!
# Binding names to values

A parameter gets its value in two steps: its name is bound to a new variable, and the value is put into the
variable.  `Scopes.supply` does this for several names in one scope.  If the names are different, and none
was bound in the scope before, then each of them has a variable of its own afterwards, and these hold the
values in the order in which they were supplied.  Nothing else changes.
-/

namespace ProtoScript

/-- A name, with the type it is declared with and its value. -/
structure Supplied where
  name : String
  type : Option ObjectRef
  value : Value

namespace Scopes

/-- Binds a name in a scope to a new variable that holds its value. -/
def supplyOne (s : Scopes) (r : ScopeRef) (b : Supplied) : Scopes :=
  (s.bind r b.name b.type).2.put (s.bind r b.name b.type).1 b.value

/-- Binds names in a scope, one after the other. -/
def supply (s : Scopes) (r : ScopeRef) : List Supplied → Scopes
  | [] => s
  | b :: bs => (s.supplyOne r b).supply r bs

/-- Names that can all be declared in a scope. -/
structure Vacant (s : Scopes) (r : ScopeRef) (names : List String) : Prop where
  nodup : names.Nodup
  unbound : ∀ name ∈ names, s.findLocal? r name = none

variable {s : Scopes} {r : ScopeRef}

/-! ### One name -/

@[simp] theorem size_supplyOne (s : Scopes) (r : ScopeRef) (b : Supplied) :
    (s.supplyOne r b).scopes.size = s.scopes.size :=
  bind_size s r b.name b.type

@[simp] theorem parent?_supplyOne (s : Scopes) (r : ScopeRef) (b : Supplied) (q : ScopeRef) :
    (s.supplyOne r b).parent? q = s.parent? q :=
  bind_parent? s r b.name b.type q

@[simp] theorem cells_supplyOne (s : Scopes) (r : ScopeRef) (b : Supplied) :
    (s.supplyOne r b).cells.size = s.cells.size + 1 := by
  simp [supplyOne, put, bind]

/-- The new variable holds the value, and the others hold what they held. -/
theorem cell_supplyOne (s : Scopes) (r : ScopeRef) (b : Supplied) (c : CellRef) :
    (s.supplyOne r b).cell c = if c.index = s.cells.size then ⟨b.type, some b.value⟩ else s.cell c := by
  have hsize : (s.bind r b.name b.type).2.cells.size = s.cells.size + 1 := by simp [bind]
  rw [supplyOne, cell_put, cell_bind, hsize]
  by_cases hc : c.index = s.cells.size
  · have hself : (s.bind r b.name b.type).1 = c := by
      rw [bind, ← hc]
    rw [if_pos ⟨hself, by omega⟩, if_pos hc, if_pos hc]
  · have hother : (s.bind r b.name b.type).1 ≠ c := fun heq => hc (heq ▸ rfl)
    rw [if_neg fun hboth => hother hboth.1, if_neg hc, if_neg hc]

theorem findLocal?_supplyOne_self (hr : r.index < s.scopes.size) (b : Supplied) :
    (s.supplyOne r b).findLocal? r b.name = some ⟨s.cells.size⟩ :=
  findLocal?_bind_self hr b.name b.type

theorem findLocal?_supplyOne_of_ne (b : Supplied) {name : String} (hne : b.name ≠ name) :
    (s.supplyOne r b).findLocal? r name = s.findLocal? r name :=
  findLocal?_bind_of_ne s r r b.type hne

/-- Several names can be declared exactly if the first one can, and the others can after that. -/
theorem vacant_cons_iff (hr : r.index < s.scopes.size) {b : Supplied} {names : List String} :
    s.Vacant r (b.name :: names) ↔
      s.findLocal? r b.name = none ∧ (s.supplyOne r b).Vacant r names := by
  constructor
  · rintro ⟨hnodup, hunbound⟩
    obtain ⟨hnew, hnodup⟩ := List.nodup_cons.mp hnodup
    refine ⟨hunbound _ List.mem_cons_self, hnodup, fun name hname => ?_⟩
    have hne : b.name ≠ name := fun heq => hnew (heq ▸ hname)
    rw [findLocal?_supplyOne_of_ne b hne]
    exact hunbound name (List.mem_cons_of_mem _ hname)
  · rintro ⟨hfirst, hnodup, hunbound⟩
    have hnew : b.name ∉ names := by
      intro hname
      have hnone := hunbound _ hname
      rw [findLocal?_supplyOne_self hr] at hnone
      cases hnone
    refine ⟨List.nodup_cons.mpr ⟨hnew, hnodup⟩, fun name hname => ?_⟩
    rcases List.mem_cons.mp hname with rfl | hname
    · exact hfirst
    · have hne : b.name ≠ name := fun heq => hnew (heq ▸ hname)
      rw [← findLocal?_supplyOne_of_ne b hne]
      exact hunbound name hname

/-! ### Several names -/

@[simp] theorem size_supply (s : Scopes) (r : ScopeRef) (bs : List Supplied) :
    (s.supply r bs).scopes.size = s.scopes.size := by
  induction bs generalizing s with
  | nil => rfl
  | cons b bs ih => rw [supply, ih, size_supplyOne]

@[simp] theorem parent?_supply (s : Scopes) (r : ScopeRef) (bs : List Supplied) (q : ScopeRef) :
    (s.supply r bs).parent? q = s.parent? q := by
  induction bs generalizing s with
  | nil => rfl
  | cons b bs ih => rw [supply, ih, parent?_supplyOne]

theorem supply_append (s : Scopes) (r : ScopeRef) (bs bs' : List Supplied) :
    s.supply r (bs ++ bs') = (s.supply r bs).supply r bs' := by
  induction bs generalizing s with
  | nil => rfl
  | cons b bs ih => exact ih _

/-- Names can be declared after others exactly if all of them can be declared. -/
theorem vacant_append_iff {bs : List Supplied} (hr : r.index < s.scopes.size) {names : List String} :
    s.Vacant r (bs.map (·.name) ++ names) ↔
      s.Vacant r (bs.map (·.name)) ∧ (s.supply r bs).Vacant r names := by
  induction bs generalizing s with
  | nil => exact ⟨fun h => ⟨⟨List.nodup_nil, nofun⟩, h⟩, fun h => h.2⟩
  | cons b bs ih =>
    have hr' : r.index < (s.supplyOne r b).scopes.size := by rwa [size_supplyOne]
    rw [List.map_cons, List.cons_append, vacant_cons_iff hr, ih hr', vacant_cons_iff hr, and_assoc]
    rfl

/-- Variables that were there hold what they held. -/
theorem cell_supply_of_lt (bs : List Supplied) {c : CellRef} (hc : c.index < s.cells.size) :
    (s.supply r bs).cell c = s.cell c := by
  induction bs generalizing s with
  | nil => rfl
  | cons b bs ih =>
    have hc' : c.index < (s.supplyOne r b).cells.size := by
      rw [cells_supplyOne]
      omega
    rw [supply, ih hc', cell_supplyOne, if_neg (Nat.ne_of_lt hc)]

/-- Other scopes bind what they bound. -/
theorem findLocal?_supply_of_scope_ne (bs : List Supplied) {q : ScopeRef} (hq : r ≠ q)
    (name : String) : (s.supply r bs).findLocal? q name = s.findLocal? q name := by
  induction bs generalizing s with
  | nil => rfl
  | cons b bs ih =>
    rw [supply, ih]
    exact findLocal?_bind_of_scope_ne s b.name name b.type hq

/-- Other names are bound as before. -/
theorem findLocal?_supply_of_not_mem {bs : List Supplied} {name : String}
    (hname : name ∉ bs.map (·.name)) : (s.supply r bs).findLocal? r name = s.findLocal? r name := by
  induction bs generalizing s with
  | nil => rfl
  | cons b bs ih =>
    rw [List.map_cons, List.mem_cons, not_or] at hname
    rw [supply, ih hname.2, findLocal?_supplyOne_of_ne b (Ne.symm hname.1)]

/-- Different names have variables of their own, in order, which hold their values. -/
theorem supply_getElem {bs : List Supplied} (hr : r.index < s.scopes.size)
    (hnodup : (bs.map (·.name)).Nodup) {k : Nat} (hk : k < bs.length) :
    (s.supply r bs).findLocal? r bs[k].name = some ⟨s.cells.size + k⟩ ∧
      (s.supply r bs).cell ⟨s.cells.size + k⟩ = ⟨bs[k].type, some bs[k].value⟩ := by
  induction bs generalizing s k with
  | nil => exact absurd hk (Nat.not_lt_zero k)
  | cons b bs ih =>
    obtain ⟨hnew, hnodup⟩ := List.nodup_cons.mp hnodup
    rw [supply]
    cases k with
    | zero =>
      have hlt : s.cells.size < (s.supplyOne r b).cells.size := by simp
      refine ⟨?_, ?_⟩
      · exact (findLocal?_supply_of_not_mem hnew).trans (findLocal?_supplyOne_self hr b)
      · rw [cell_supply_of_lt bs (show (⟨s.cells.size + 0⟩ : CellRef).index < _ from hlt),
          cell_supplyOne]
        exact if_pos rfl
    | succ k =>
      have hrest := ih (s := s.supplyOne r b) (k := k) (by simpa using hr) hnodup
        (Nat.lt_of_succ_lt_succ hk)
      rw [cells_supplyOne, Nat.add_right_comm] at hrest
      exact hrest

/-- What is supplied under a name is found under it, in a new variable. -/
theorem supply_of_mem {bs : List Supplied} (hr : r.index < s.scopes.size)
    (hnodup : (bs.map (·.name)).Nodup) {b : Supplied} (hb : b ∈ bs) :
    ∃ c, (s.supply r bs).findLocal? r b.name = some c ∧
      (s.supply r bs).cell c = ⟨b.type, some b.value⟩ := by
  obtain ⟨k, hk, rfl⟩ := List.getElem_of_mem hb
  exact ⟨_, supply_getElem hr hnodup hk⟩

/-- Names that were not bound before are bound to the variable of what was supplied under them. -/
theorem exists_getElem_of_findLocal? {bs : List Supplied} (hr : r.index < s.scopes.size)
    (hnodup : (bs.map (·.name)).Nodup) {name : String} (hunbound : s.findLocal? r name = none)
    {c : CellRef} (hc : (s.supply r bs).findLocal? r name = some c) :
    ∃ k, ∃ hk : k < bs.length, bs[k].name = name ∧ c = ⟨s.cells.size + k⟩ := by
  by_cases hname : name ∈ bs.map (·.name)
  · obtain ⟨b, hb, rfl⟩ := List.mem_map.mp hname
    obtain ⟨k, hk, rfl⟩ := List.getElem_of_mem hb
    exact ⟨k, hk, rfl, Option.some.inj (hc.symm.trans (supply_getElem hr hnodup hk).1)⟩
  · rw [findLocal?_supply_of_not_mem hname, hunbound] at hc
    cases hc

end Scopes

end ProtoScript
