import ProtoScript.Proofs.Evaluation.Parameters
import ProtoScript.Proofs.Scope.Frames

/-!
# Cells over time

A cell that was found, or declared, changes with every later assignment that finds it, and with nothing
else; `Standpoint.assigned` lists these assignments.  Between the opening of a scope and its closing, an outer
name can be found as long as no scope on the way declares it too.  `lastUnshadowed` reads the last
assignment to an outer name off the operations alone, and the outer name's cell holds just that value when
the scope is closed.
-/

namespace ProtoScript

/-! ## Definitions -/

namespace ScopeOperation

/-- Whether operations close the given number of scopes and those that they open themselves, and no
others. -/
def balanced : Nat → List ScopeOperation → Bool
  | n, [] => n == 0
  | n, openScope :: ops => balanced (n + 1) ops
  | 0, closeScope :: _ => false
  | n + 1, closeScope :: ops => balanced n ops
  | n, _ :: ops => balanced n ops

/-- The names that are declared in each of the scopes inside an outer one, after an operation. -/
def declared : ScopeOperation → List (List String) → List (List String)
  | openScope, names => [] :: names
  | closeScope, names => names.tail
  | declare name _, inner :: names => (name :: inner) :: names
  | _, names => names

/-- The value that an operation assigns to an outer name, which none of the scopes inside declares. -/
def assignsOuter? (name : String) (names : List (List String)) : ScopeOperation → Option Value
  | assign other v => if other = name ∧ ∀ inner ∈ names, name ∉ inner then some v else none
  | _ => none

/-- The last value that operations assign to an outer name while it is not shadowed, given the names that
are declared in the scopes inside the outer one. -/
def lastUnshadowed (name : String) : List (List String) → List ScopeOperation → Option Value
  | _, [] => none
  | names, op :: ops =>
    (lastUnshadowed name (op.declared names) ops).or (op.assignsOuter? name names)

end ScopeOperation

namespace Standpoint

/-- The value that an operation assigns to a cell. -/
def assigns? (p : Standpoint) (c : CellRef) : ScopeOperation → Option Value
  | .assign name v => if p.find? false name = some c then some v else none
  | _ => none

/-- The values that operations assign to a cell, one after the other. -/
def assigned (p : Standpoint) (c : CellRef) : List ScopeOperation → List Value
  | [] => []
  | op :: ops => (p.assigns? c op).toList ++ (p.step op).2.assigned c ops

end Standpoint

/-! ## Single cells -/

namespace Standpoint

variable {p : Standpoint}

/-- The value that a cell holds, if it was given another one. -/
def updated (cell : Cell) : Option Value → Cell
  | some v => { cell with contents := some v }
  | none => cell

/-- An operation changes a cell if it assigns to it, and otherwise leaves it. -/
theorem cell_step (p : Standpoint) {c : CellRef} (hc : c.index < p.scopes.cells.size)
    (op : ScopeOperation) :
    (p.step op).2.scopes.cell c = updated (p.scopes.cell c) (p.assigns? c op) ∧
      c.index < (p.step op).2.scopes.cells.size := by
  cases op with
  | openScope => exact ⟨rfl, hc⟩
  | closeScope =>
    simp only [step]
    cases p.scopes.parent? p.current <;> exact ⟨rfl, hc⟩
  | declare name type =>
    simp only [step, Scopes.declare?]
    cases p.scopes.findLocal? p.current name with
    | some d => exact ⟨rfl, hc⟩
    | none =>
      refine ⟨?_, ?_⟩
      · rw [Scopes.cell_bind, if_neg (Nat.ne_of_lt hc)]
        rfl
      · rw [Scopes.cells_size_bind]
        exact Nat.lt_succ_of_lt hc
  | find name inner => exact ⟨rfl, hc⟩
  | assign name v =>
    have hfind : p.find? false name = p.scopes.find? p.current name := rfl
    simp only [step, Scopes.assign?, assigns?, hfind]
    cases p.scopes.find? p.current name with
    | none => exact ⟨rfl, hc⟩
    | some d =>
      simp only [Option.map_some, Option.some.injEq]
      refine ⟨?_, by rwa [Scopes.cells_size_put]⟩
      rw [Scopes.cell_put]
      by_cases hd : d = c
      · rw [if_pos ⟨hd, hc⟩, if_pos hd]
        rfl
      · rw [if_neg fun h => hd h.1, if_neg hd]
        rfl

/-- A cell keeps its type, and holds what was assigned to it last. -/
theorem cell_after (p : Standpoint) {c : CellRef} (hc : c.index < p.scopes.cells.size)
    (ops : List ScopeOperation) :
    (p.after ops).scopes.cell c = updated (p.scopes.cell c) (p.assigned c ops).getLast? := by
  induction ops generalizing p with
  | nil => rfl
  | cons op ops ih =>
    obtain ⟨hcell, hlt⟩ := cell_step p hc op
    rw [after_cons, ih _ hlt, hcell, assigned]
    cases p.assigns? c op with
    | none => rfl
    | some v =>
      rw [Option.toList_some, List.getLast?_append]
      cases ((p.step op).2.assigned c ops).getLast? <;> rfl

/-! ## A scope that is opened and closed -/

/-- The scopes from one of them to the current scope of `outer`, which was current before they were
opened, and the names that each of them binds. -/
inductive Inside (outer : Standpoint) (s : Scopes) : ScopeRef → List (List String) → Prop
  | here : Inside outer s outer.current []
  | inner {r q : ScopeRef} {names : List String} {more : List (List String)}
    (hparent : s.parent? r = some q) (hnew : outer.scopes.scopes.size ≤ r.index)
    (hnames : ∀ name, name ∈ names ↔ ∃ c, s.findLocal? r name = some c)
    (h : Inside outer s q more) : Inside outer s r (names :: more)

/-- The innermost of the scopes that were opened, and the others around it. -/
theorem Inside.of_cons {outer : Standpoint} {s : Scopes} {r : ScopeRef} {names : List String}
    {more : List (List String)} (h : Inside outer s r (names :: more)) :
    ∃ q, s.parent? r = some q ∧ outer.scopes.scopes.size ≤ r.index ∧
      (∀ name, name ∈ names ↔ ∃ c, s.findLocal? r name = some c) ∧ Inside outer s q more := by
  cases h with
  | inner hparent hnew hnames hrest => exact ⟨_, hparent, hnew, hnames, hrest⟩

/-- The scopes of `outer` bind what they bound, and other scopes bind cells that were not there. -/
structure Extends (outer p : Standpoint) : Prop where
  tidy : p.Tidy
  size_le : outer.scopes.scopes.size ≤ p.scopes.scopes.size
  cells_le : outer.scopes.cells.size ≤ p.scopes.cells.size
  parent?_eq : ∀ q : ScopeRef, q.index < outer.scopes.scopes.size →
    p.scopes.parent? q = outer.scopes.parent? q
  findLocal?_eq : ∀ q : ScopeRef, q.index < outer.scopes.scopes.size → ∀ name,
    p.scopes.findLocal? q name = outer.scopes.findLocal? q name
  new : ∀ (q : ScopeRef) name c, outer.scopes.scopes.size ≤ q.index →
    p.scopes.findLocal? q name = some c → outer.scopes.cells.size ≤ c.index

variable {outer : Standpoint}

/-- From an outer scope, names are found as before. -/
theorem Extends.find?_eq (h : Extends outer p) (houter : outer.Tidy) (name : String)
    {r : ScopeRef} (hr : r.index < outer.scopes.scopes.size) :
    p.scopes.find? r name = outer.scopes.find? r name :=
  have hretained : outer.scopes.Retained p.scopes :=
    ⟨⟨h.size_le, h.parent?_eq⟩, h.findLocal?_eq⟩
  hretained.find?_eq houter.scopes.nested h.tidy.scopes.nested name hr

/-- A name that no inner scope binds is found as before, and any other one in an inner scope. -/
theorem Extends.find?_inside (h : Extends outer p) (houter : outer.Tidy) (name : String)
    {r : ScopeRef} (hr : r.index < p.scopes.scopes.size) {names : List (List String)}
    (hinside : Inside outer p.scopes r names) :
    ((∀ inner ∈ names, name ∉ inner) → p.scopes.find? r name = outer.find? false name) ∧
      (¬ (∀ inner ∈ names, name ∉ inner) →
        ∃ c, p.scopes.find? r name = some c ∧ outer.scopes.cells.size ≤ c.index) := by
  induction hinside with
  | here => exact ⟨fun _ => h.find?_eq houter name houter.current_lt, fun hnot => absurd nofun hnot⟩
  | @inner r q inner more hparent hnew hnames _ ih =>
    have holder := h.tidy.scopes.nested.parent_lt hr hparent
    obtain ⟨hfree, hbound⟩ := ih (lt_trans holder hr)
    have hfind := Scopes.find?_eq h.tidy.scopes.nested name hr
    simp only [hparent, Option.bind_some] at hfind
    simp only [List.forall_mem_cons]
    by_cases hname : name ∈ inner
    · obtain ⟨c, hc⟩ := (hnames name).mp hname
      rw [hc] at hfind
      exact ⟨fun hnot => absurd hname hnot.1, fun _ => ⟨c, hfind, h.new r name c hnew hc⟩⟩
    · have hnone : p.scopes.findLocal? r name = none := by
        cases hc : p.scopes.findLocal? r name with
        | none => rfl
        | some c => exact absurd ((hnames name).mpr ⟨c, hc⟩) hname
      rw [hnone] at hfind
      rw [hfind]
      exact ⟨fun hall => hfree hall.2, fun hnot => hbound fun hall => hnot ⟨hname, hall⟩⟩

/-- Scopes in which nothing is declared bind what they bound, whatever happens in other scopes. -/
theorem Inside.transport {s t : Scopes} {r : ScopeRef} {names : List (List String)} (hs : s.Nested)
    (h : Inside outer s r names) (hr : r.index < s.scopes.size)
    (hparent : ∀ q : ScopeRef, q.index ≤ r.index → t.parent? q = s.parent? q)
    (hfind : ∀ q : ScopeRef, q.index ≤ r.index → ∀ name,
      t.findLocal? q name = s.findLocal? q name) :
    Inside outer t r names := by
  induction h with
  | here => exact .here
  | @inner r q names more hsome hnew hnames _ ih =>
    have holder := hs.parent_lt hr hsome
    refine .inner ((hparent r (Nat.le_refl _)).trans hsome) hnew (fun name => ?_) ?_
    · rw [hfind r (Nat.le_refl _)]
      exact hnames name
    · exact ih (by omega) (fun q hq => hparent q (by omega)) fun q hq => hfind q (by omega)

/-- Inside a scope that was opened, each operation leaves the outer scopes alone, and the names that the
inner scopes bind are those that were declared. -/
theorem Extends.step (h : Extends outer p) {names : List String} {more : List (List String)}
    (hinside : Inside outer p.scopes p.current (names :: more)) (op : ScopeOperation) :
    Extends outer (p.step op).2 ∧
      Inside outer (p.step op).2.scopes (p.step op).2.current (op.declared (names :: more)) := by
  have htidy := h.tidy.step op
  have hlt := h.tidy.current_lt
  have hnested := h.tidy.scopes.nested
  cases op with
  | openScope =>
    have hsize : p.scopes.scopes.size ≤ (p.scopes.addChild p.current).2.scopes.size := by simp
    refine ⟨⟨htidy, le_trans h.size_le hsize, h.cells_le, fun q hq => ?_, fun q hq name => ?_,
      fun q name c hq hc => ?_⟩, ?_⟩
    · exact (Scopes.addChild_parent?_of_lt _ _ (lt_of_lt_of_le hq h.size_le)).trans (h.parent?_eq q hq)
    · exact (Scopes.findLocal?_addChild_eq _ _ _ _).trans (h.findLocal?_eq q hq name)
    · exact h.new q name c hq ((Scopes.findLocal?_addChild_eq _ _ _ _).symm.trans hc)
    · refine .inner (Scopes.addChild_parent?_self _ _) h.size_le (fun name => ?_) ?_
      · refine ⟨fun hname => absurd hname List.not_mem_nil, fun ⟨c, hc⟩ => ?_⟩
        cases (Scopes.findLocal?_addChild_self p.scopes p.current name).symm.trans hc
      · exact hinside.transport hnested hlt
          (fun q hq => Scopes.addChild_parent?_of_lt _ _ (lt_of_le_of_lt hq hlt))
          fun q _ name => Scopes.findLocal?_addChild_eq _ _ _ _
  | closeScope =>
    obtain ⟨q, hparent, -, -, hrest⟩ := hinside.of_cons
    simp only [Standpoint.step, hparent] at htidy ⊢
    exact ⟨⟨htidy, h.size_le, h.cells_le, h.parent?_eq, h.findLocal?_eq, h.new⟩, hrest⟩
  | declare name type =>
    obtain ⟨q, hparent, hnew, hnames, hrest⟩ := hinside.of_cons
    have holder := hnested.parent_lt hlt hparent
    simp only [Standpoint.step, Scopes.declare?] at htidy ⊢
    cases hc : p.scopes.findLocal? p.current name with
    | some c =>
      refine ⟨h, .inner hparent hnew (fun other => ?_) hrest⟩
      rw [List.mem_cons]
      refine ⟨fun hother => ?_, fun hother => .inr ((hnames other).mpr hother)⟩
      rcases hother with rfl | hother
      · exact ⟨c, hc⟩
      · exact (hnames other).mp hother
    | none =>
      rw [hc] at htidy
      have hfind := Scopes.findLocal?_bind hlt name type
      have houter (q : ScopeRef) (hq : q.index < p.current.index) (other : String) :
          (p.scopes.bind p.current name type).2.findLocal? q other = p.scopes.findLocal? q other := by
        rw [hfind, if_neg]
        rintro ⟨rfl, -⟩
        omega
      refine ⟨⟨htidy, ?_, ?_, fun q hq => ?_, fun q hq other => ?_, fun q other c hq hc => ?_⟩, ?_⟩
      · rw [Scopes.bind_size]
        exact h.size_le
      · rw [Scopes.cells_size_bind]
        exact Nat.le_succ_of_le h.cells_le
      · rw [Scopes.bind_parent?]
        exact h.parent?_eq q hq
      · rw [houter q (lt_of_lt_of_le hq hnew)]
        exact h.findLocal?_eq q hq other
      · rw [hfind] at hc
        split at hc
        · obtain rfl := Option.some.inj hc
          exact h.cells_le
        · exact h.new q other c hq hc
      · refine .inner ((Scopes.bind_parent? _ _ _ _ _).trans hparent) hnew (fun other => ?_) ?_
        · rw [List.mem_cons, hfind]
          by_cases hother : name = other
          · rw [if_pos ⟨rfl, hother⟩]
            exact ⟨fun _ => ⟨_, rfl⟩, fun _ => .inl hother.symm⟩
          · rw [if_neg fun heq => hother heq.2, ← hnames other]
            exact ⟨fun hmem => hmem.resolve_left (Ne.symm hother), .inr⟩
        · exact hrest.transport hnested (lt_trans holder hlt)
            (fun q _ => Scopes.bind_parent? _ _ _ _ _) fun q hq => houter q (by omega)
  | find name inner => exact ⟨h, hinside⟩
  | assign name v =>
    simp only [Standpoint.step, Scopes.assign?] at htidy ⊢
    cases hc : p.scopes.find? p.current name with
    | none => exact ⟨h, hinside⟩
    | some c =>
      rw [hc] at htidy
      refine ⟨⟨htidy, h.size_le, ?_, h.parent?_eq, h.findLocal?_eq, h.new⟩, ?_⟩
      · exact le_of_le_of_eq h.cells_le (Scopes.cells_size_put _ c v).symm
      · exact hinside.transport hnested hlt (fun _ _ => rfl) fun _ _ _ => rfl

/-- As long as the scope that was opened first is not closed, there is a scope inside the outer one. -/
theorem exists_declared {op : ScopeOperation} {ops : List ScopeOperation} (names : List String)
    {more : List (List String)} (h : ScopeOperation.balanced more.length (op :: ops) = true) :
    ∃ names' more', op.declared (names :: more) = names' :: more' ∧
      ScopeOperation.balanced more'.length ops = true := by
  cases op with
  | openScope => exact ⟨[], names :: more, rfl, h⟩
  | closeScope =>
    cases more with
    | nil => cases h
    | cons inner more => exact ⟨inner, more, rfl, h⟩
  | declare name type => exact ⟨name :: names, more, rfl, by cases more <;> exact h⟩
  | find name inner => exact ⟨names, more, rfl, by cases more <;> exact h⟩
  | assign name v => exact ⟨names, more, rfl, by cases more <;> exact h⟩

/-- Different names are bound to different cells. -/
theorem Tidy.eq_of_find? (hp : p.Tidy) {name other : String} {c : CellRef}
    (hc : p.find? false name = some c) (hc' : p.find? false other = some c) : name = other := by
  have hnested := hp.scopes.nested
  obtain ⟨q, hq⟩ := Scopes.exists_findLocal?_of_find? hnested hp.current_lt hc
  obtain ⟨q', hq'⟩ := Scopes.exists_findLocal?_of_find? hnested hp.current_lt hc'
  exact (hp.scopes.unique q name q' other c hq hq').2

/-- A cell of the outer scopes is found inside under the name under which it is found outside, as long
as no inner scope declares that name. -/
theorem Extends.find?_eq_some_iff (h : Extends outer p) (houter : outer.Tidy)
    {names : List (List String)} (hinside : Inside outer p.scopes p.current names) (name : String)
    {c : CellRef} (hc : c.index < outer.scopes.cells.size) :
    p.find? false name = some c ↔
      outer.find? false name = some c ∧ ∀ inner ∈ names, name ∉ inner := by
  obtain ⟨hfree, hbound⟩ := h.find?_inside houter name h.tidy.current_lt hinside
  change p.scopes.find? p.current name = some c ↔ _
  by_cases hall : ∀ inner ∈ names, name ∉ inner
  · rw [hfree hall]
    exact ⟨fun hfind => ⟨hfind, hall⟩, fun hfind => hfind.1⟩
  · obtain ⟨d, hd, hnew⟩ := hbound hall
    rw [hd]
    refine ⟨fun heq => ?_, fun hfind => absurd hfind.2 hall⟩
    obtain rfl := Option.some.inj heq
    omega

/-- An operation assigns to the cell of an outer name if it assigns to the name while that is not
shadowed. -/
theorem Extends.assigns?_eq (h : Extends outer p) (houter : outer.Tidy) {names : List (List String)}
    (hinside : Inside outer p.scopes p.current names) {name : String} {c : CellRef}
    (hc : c.index < outer.scopes.cells.size) (hname : outer.find? false name = some c)
    (op : ScopeOperation) : p.assigns? c op = op.assignsOuter? name names := by
  cases op with
  | assign other v =>
    have hiff : p.find? false other = some c ↔ other = name ∧ ∀ inner ∈ names, name ∉ inner := by
      rw [h.find?_eq_some_iff houter hinside other hc]
      constructor
      · rintro ⟨hother, hfree⟩
        obtain rfl := houter.eq_of_find? hother hname
        exact ⟨rfl, hfree⟩
      · rintro ⟨rfl, hfree⟩
        exact ⟨hname, hfree⟩
    simp only [assigns?, ScopeOperation.assignsOuter?, hiff]
  | _ => rfl

/-- No operation assigns to a cell that no name leads to. -/
theorem Extends.assigns?_eq_none (h : Extends outer p) (houter : outer.Tidy)
    {names : List (List String)} (hinside : Inside outer p.scopes p.current names) {c : CellRef}
    (hc : c.index < outer.scopes.cells.size) (hhidden : ∀ name, outer.find? false name ≠ some c)
    (op : ScopeOperation) : p.assigns? c op = none := by
  cases op with
  | assign other v =>
    refine if_neg fun hfind => ?_
    exact hhidden other ((h.find?_eq_some_iff houter hinside other hc).mp hfind).1
  | _ => rfl

/-- Inside a scope that was opened, operations that close what they open leave the outer scopes alone;
the assignments that reach the cell of an outer name are those to the name while it is not shadowed, and
none reaches any other outer cell. -/
theorem Extends.after (houter : outer.Tidy) {names : List String} {more : List (List String)}
    (h : Extends outer p) (hinside : Inside outer p.scopes p.current (names :: more))
    {body : List ScopeOperation} (hbody : ScopeOperation.balanced more.length body = true) :
    Extends outer (p.after body) ∧
      (∃ last, Inside outer (p.after body).scopes (p.after body).current [last]) ∧
      ∀ c : CellRef, c.index < outer.scopes.cells.size →
        (∀ name, outer.find? false name = some c →
          (p.assigned c body).getLast? =
            ScopeOperation.lastUnshadowed name (names :: more) body) ∧
        ((∀ name, outer.find? false name ≠ some c) → p.assigned c body = []) := by
  induction body generalizing p names more with
  | nil =>
    obtain rfl : more = [] := by
      cases more with
      | nil => rfl
      | cons _ _ => cases hbody
    exact ⟨h, ⟨names, hinside⟩, fun c _ => ⟨fun _ _ => rfl, fun _ => rfl⟩⟩
  | cons op body ih =>
    obtain ⟨names', more', hdeclared, hrest⟩ := exists_declared names hbody
    obtain ⟨hstep, hinside'⟩ := h.step hinside op
    rw [hdeclared] at hinside'
    obtain ⟨hextends, hlast, hcells⟩ := ih hstep hinside' hrest
    refine ⟨hextends, hlast, fun c hc => ?_⟩
    obtain ⟨hvisible, hhidden⟩ := hcells c hc
    refine ⟨fun name hname => ?_, fun hnone => ?_⟩
    · rw [assigned, List.getLast?_append, hvisible name hname,
        h.assigns?_eq houter hinside hc hname op, ScopeOperation.lastUnshadowed, hdeclared]
      cases op.assignsOuter? name (names :: more) <;> rfl
    · rw [assigned, hhidden hnone, h.assigns?_eq_none houter hinside hc hnone op]
      rfl

/-- What a search finds, or a declaration makes, is a cell. -/
theorem Tidy.found_lt (hp : p.Tidy) {op : ScopeOperation} {c : CellRef}
    (hc : (p.step op).1 = .found c) : c.index < (p.step op).2.scopes.cells.size := by
  cases op with
  | openScope => cases hc
  | closeScope =>
    simp only [Standpoint.step] at hc
    cases hparent : p.scopes.parent? p.current <;> simp only [hparent] at hc <;> cases hc
  | declare name type =>
    simp only [Standpoint.step, Scopes.declare?] at hc ⊢
    cases hlocal : p.scopes.findLocal? p.current name with
    | some d =>
      simp only [hlocal] at hc
      cases hc
    | none =>
      simp only [hlocal] at hc
      cases hc
      rw [Scopes.cells_size_bind]
      exact Nat.lt_succ_self _
  | find name inner =>
    have hfind : p.find? inner name = some c := by
      simp only [Standpoint.step] at hc
      revert hc
      cases p.find? inner name with
      | none =>
        intro hc
        cases hc
      | some d =>
        intro hc
        cases hc
        rfl
    cases inner with
    | true => exact hp.scopes.cell_lt _ _ _ hfind
    | false =>
      obtain ⟨q, hq⟩ := Scopes.exists_findLocal?_of_find? hp.scopes.nested hp.current_lt hfind
      exact hp.scopes.cell_lt _ _ _ hq
  | assign name v =>
    simp only [Standpoint.step] at hc
    cases hassign : p.scopes.assign? p.current name v <;> simp only [hassign] at hc <;> cases hc

/-! ## What holds at every point of a program -/

/-- When single operations fail, and what they change. -/
structure Regular (p : Standpoint) : Prop where
  unchanged_of_failed : ∀ op, (p.step op).1 = .failed → (p.step op).2 = p
  close_failed_iff : (p.step .closeScope).1 = .failed ↔ p.current = Scopes.root
  declare_failed_iff : ∀ name type,
    (p.step (.declare name type)).1 = .failed ↔ ∃ c, p.find? true name = some c
  assign_failed_iff : ∀ name v, (p.step (.assign name v)).1 = .failed ↔ p.find? false name = none
  /-- An assignment changes the value of the cell that is found, and nothing else. -/
  assign_found : ∀ name v c, p.find? false name = some c →
    (p.step (.assign name v)).2.current = p.current ∧
    (p.step (.assign name v)).2.scopes.scopes = p.scopes.scopes ∧
    (p.step (.assign name v)).2.scopes.variableAt c = { p.scopes.variableAt c with value := v } ∧
    ∀ d, d ≠ c → (p.step (.assign name v)).2.scopes.cell d = p.scopes.cell d

/-- What is left at `q` of the outer scopes of `p` after a scope was opened, the operations `body` done in
it, and the scope closed again. -/
structure Restored (p q : Standpoint) (body : List ScopeOperation) : Prop where
  current_eq : q.current = p.current
  find?_eq : ∀ inner name, q.find? inner name = p.find? inner name
  findLocal?_eq : ∀ r : ScopeRef, r.index < p.scopes.scopes.size → ∀ name,
    q.scopes.findLocal? r name = p.scopes.findLocal? r name
  /-- The cell of a name holds the last value that was assigned to the name while it was not shadowed. -/
  found : ∀ name c, p.find? false name = some c →
    q.scopes.variableAt c = ⟨(p.scopes.variableAt c).type,
      (ScopeOperation.lastUnshadowed name [[]] body).getD (p.scopes.variableAt c).value⟩
  hidden : ∀ c : CellRef, c.index < p.scopes.cells.size → (∀ name, p.find? false name ≠ some c) →
    q.scopes.cell c = p.scopes.cell c

theorem Tidy.regular (hp : p.Tidy) : p.Regular := by
  refine ⟨fun op hfailed => ?_, ?_, fun name type => ?_, fun name v => ?_, fun name v c hc => ?_⟩
  · cases op with
    | openScope => cases hfailed
    | closeScope =>
      simp only [Standpoint.step] at hfailed ⊢
      cases hparent : p.scopes.parent? p.current with
      | none => rfl
      | some r =>
        simp only [hparent] at hfailed
        cases hfailed
    | declare name type =>
      simp only [Standpoint.step] at hfailed ⊢
      cases hdeclare : p.scopes.declare? p.current name type with
      | none => rfl
      | some r =>
        simp only [hdeclare] at hfailed
        cases hfailed
    | find name inner => rfl
    | assign name v =>
      simp only [Standpoint.step] at hfailed ⊢
      cases hassign : p.scopes.assign? p.current name v with
      | none => rfl
      | some r =>
        simp only [hassign] at hfailed
        cases hfailed
  · simp only [Standpoint.step]
    by_cases hroot : p.current = Scopes.root
    · rw [hroot, hp.scopes.nested.root_parent]
      exact ⟨fun _ => rfl, fun _ => rfl⟩
    · obtain ⟨r, hr, -⟩ := hp.scopes.nested.parent_older p.current hp.current_lt hroot
      rw [hr]
      constructor
      · intro h
        cases h
      · exact fun h => absurd h hroot
  · change _ ↔ ∃ c, p.scopes.findLocal? p.current name = some c
    simp only [Standpoint.step, Scopes.declare?]
    cases p.scopes.findLocal? p.current name with
    | none =>
      constructor
      · intro h
        cases h
      · rintro ⟨c, hc⟩
        cases hc
    | some c => exact ⟨fun _ => ⟨c, rfl⟩, fun _ => rfl⟩
  · change _ ↔ p.scopes.find? p.current name = none
    simp only [Standpoint.step, Scopes.assign?]
    cases p.scopes.find? p.current name with
    | none => exact ⟨fun _ => rfl, fun _ => rfl⟩
    | some c =>
      constructor
      · intro h
        cases h
      · intro h
        cases h
  · change p.scopes.find? p.current name = some c at hc
    obtain ⟨q, hq⟩ := Scopes.exists_findLocal?_of_find? hp.scopes.nested hp.current_lt hc
    have hstep : p.step (.assign name v) = (.done, { p with scopes := p.scopes.put c v }) := by
      simp only [Standpoint.step, Scopes.assign?, hc, Option.map_some]
    rw [hstep]
    refine ⟨rfl, rfl, Scopes.variableAt_put_self (hp.scopes.cell_lt q name c hq) v, fun d hd => ?_⟩
    rw [Scopes.cell_put, if_neg fun h => hd h.1.symm]

/-- A cell that was obtained once shows every later assignment to it. -/
theorem Tidy.observes (hp : p.Tidy) {op : ScopeOperation} {c : CellRef}
    (hc : (p.step op).1 = .found c) (later : List ScopeOperation) :
    ((p.step op).2.after later).scopes.variableAt c =
      ⟨((p.step op).2.scopes.variableAt c).type,
        ((p.step op).2.assigned c later).getLast?.getD ((p.step op).2.scopes.variableAt c).value⟩ := by
  unfold Scopes.variableAt
  rw [cell_after _ (hp.found_lt hc)]
  cases ((p.step op).2.assigned c later).getLast? <;> rfl

/-- Opening a scope, and closing it after operations that close what they open, restores the outer
scopes. -/
theorem Tidy.restored (hp : p.Tidy) {body : List ScopeOperation}
    (hbody : ScopeOperation.balanced 0 body = true) :
    p.Restored (p.after (.openScope :: body ++ [.closeScope])) body := by
  -- the scope that was opened stands inside the current one, and nothing is declared in it
  have hopened : Extends p (p.step .openScope).2 := by
    refine ⟨hp.step _, by simp [Standpoint.step], le_refl _, fun q hq => ?_, fun q _ name => ?_,
      fun q name c hq hc => ?_⟩
    · exact Scopes.addChild_parent?_of_lt _ _ hq
    · exact Scopes.findLocal?_addChild_eq _ _ _ _
    · rw [show (p.step .openScope).2.scopes.findLocal? q name = p.scopes.findLocal? q name from
        Scopes.findLocal?_addChild_eq _ _ _ _] at hc
      exact absurd (Scopes.lt_of_findLocal? hc) (by omega)
  have hinside : Inside p (p.step .openScope).2.scopes (p.step .openScope).2.current [[]] := by
    refine .inner (Scopes.addChild_parent?_self _ _) (le_refl _) (fun name => ?_) .here
    refine ⟨fun hname => absurd hname List.not_mem_nil, ?_⟩
    rintro ⟨c, hc⟩
    cases (Scopes.findLocal?_addChild_self p.scopes p.current name).symm.trans hc
  obtain ⟨hextends, ⟨last, hlast⟩, hcells⟩ := hopened.after hp hinside hbody
  obtain ⟨hclosed, hcurrent⟩ := hextends.step hlast .closeScope
  have hq : p.after (.openScope :: body ++ [.closeScope]) =
      (((p.step .openScope).2.after body).step .closeScope).2 := by
    rw [List.cons_append, after_cons, after_append]
    rfl
  have hcell (c : CellRef) (hc : c.index < p.scopes.cells.size) :
      (p.after (.openScope :: body ++ [.closeScope])).scopes.cell c =
        updated (p.scopes.cell c) ((p.step .openScope).2.assigned c body).getLast? := by
    have hlt : c.index < ((p.step .openScope).2.after body).scopes.cells.size :=
      lt_of_lt_of_le hc hextends.cells_le
    rw [hq, (cell_step _ hlt .closeScope).1]
    exact cell_after (p.step .openScope).2 hc body
  rw [← hq] at hclosed hcurrent
  have hhere : (p.after (.openScope :: body ++ [.closeScope])).current = p.current := by
    generalize (p.after (.openScope :: body ++ [.closeScope])).current = r at hcurrent ⊢
    cases hcurrent
    rfl
  refine ⟨hhere, fun inner name => ?_, hclosed.findLocal?_eq, fun name c hc => ?_, fun c hc hnone => ?_⟩
  · unfold find?
    rw [hhere, hclosed.findLocal?_eq _ hp.current_lt, hclosed.find?_eq hp name hp.current_lt]
  · obtain ⟨q, hfound⟩ := Scopes.exists_findLocal?_of_find? hp.scopes.nested hp.current_lt hc
    have hlt := hp.scopes.cell_lt q name c hfound
    unfold Scopes.variableAt
    rw [hcell c hlt, (hcells c hlt).1 name hc]
    cases ScopeOperation.lastUnshadowed name [[]] body <;> rfl
  · rw [hcell c hc, (hcells c hc).2 hnone]
    rfl

end Standpoint

/-! ## The evaluator -/

namespace Machine

/-- Where a machine looks names up. -/
def standpoint (m : Machine) : Standpoint := ⟨m.scopes, m.current⟩

/-- The machine when it looks names up elsewhere. -/
def movedTo (m : Machine) (p : Standpoint) : Machine :=
  { m with scopes := p.scopes, current := p.current }

/-- What the evaluator does with names is what the operations do.  Where an operation fails, the evaluator
raises a problem and changes nothing else. -/
structure OperatesOnScopes (m : Machine) : Prop where
  openScope : Eval.openScope m = .ok () (m.movedTo (m.standpoint.step .openScope).2)
  closeScope : ∀ pos, Eval.closeScope pos m =
    match m.standpoint.step .closeScope with
    | (.failed, _) => Eval.raise .rootScopeClosed pos m
    | (_, p) => .ok () (m.movedTo p)
  declare : ∀ name type pos, Eval.declare name type pos m =
    match m.standpoint.step (.declare name type) with
    | (.found c, p) => .ok c (m.movedTo p)
    | _ => Eval.raise (.alreadyDefined name) pos m
  lookup : ∀ name pos, Eval.lookupVariable name pos m =
    match m.standpoint.step (.find name false) with
    | (.found c, _) => .ok (m.scopes.variableAt c).value m
    | _ => Eval.raise (.undefinedVariable name) pos m
  /-- After the value has been evaluated, the nearest variable is checked for its type and assigned to. -/
  assign : ∀ (self : Work → Eval Value) e m₀ v name target pos,
    self (.expression e) m₀ = .ok v m →
    Eval.assign self (.variable name target) e pos m₀ =
      match m.standpoint.find? false name with
      | some c =>
        match Eval.checkDeclared v (m.scopes.variableAt c).type pos m with
        | .ok _ _ => .ok v (m.movedTo (m.standpoint.step (.assign name v)).2)
        | .error e m' => .error e m'
      | none => Eval.raise (.undeclaredTarget name) pos m

end Machine

namespace Eval

/-- A check that is passed changes nothing. -/
theorem checkDeclared_ok {v : Value} {type : Option ObjectRef} {pos : Position} {m m' : Machine}
    (h : checkDeclared v type pos m = .ok () m') : m' = m := by
  cases type with
  | none =>
    cases h
    rfl
  | some t => exact (typecheck_eq_ok_iff_fits.mp h).1

end Eval

/-- The evaluator of a sound machine does with names what the operations do. -/
theorem Machine.Sound.operatesOnScopes {m : Machine} (hm : m.Sound) : m.OperatesOnScopes := by
  refine ⟨rfl, fun pos => ?_, fun name type pos => ?_, fun name pos => ?_, ?_⟩
  · simp only [Standpoint.step, standpoint]
    by_cases hroot : m.current = Scopes.root
    · unfold Eval.closeScope
      rw [Eval.get_bind, if_pos hroot, hroot, hm.nested.root_parent]
    · obtain ⟨r, hr, -⟩ := hm.nested.parent_older m.current hm.current_lt hroot
      rw [Eval.closeScope_of_parent hroot hr pos, hr]
      rfl
  · unfold Eval.declare
    rw [Eval.get_bind]
    simp only [Standpoint.step, standpoint, Scopes.declare?]
    cases m.scopes.findLocal? m.current name <;> rfl
  · unfold Eval.lookupVariable
    rw [Eval.get_bind]
    simp only [Standpoint.step, standpoint, Standpoint.find?]
    cases m.scopes.find? m.current name <;> rfl
  · intro self e m₀ v name target pos hv
    unfold Eval.assign
    dsimp only
    have hfind : m.standpoint.find? false name = m.scopes.find? m.current name := rfl
    rw [Eval.bind_of_ok hv, Eval.get_bind, hfind]
    cases hc : m.scopes.find? m.current name with
    | none => rfl
    | some c =>
      have hstep : (m.standpoint.step (.assign name v)).2 = ⟨m.scopes.put c v, m.current⟩ := by
        simp only [Standpoint.step, standpoint, Scopes.assign?, hc, Option.map_some]
      dsimp only [Scopes.variableAt]
      rw [hstep]
      cases hcheck : Eval.checkDeclared v (m.scopes.cell c).type pos m with
      | error e m' => exact Eval.bind_of_error hcheck
      | ok _ m' =>
        obtain rfl := Eval.checkDeclared_ok hcheck
        exact Eval.bind_of_ok hcheck

/-! ## Scopes and maps -/

/-- Scopes with cells do what a stack of maps does.  At every point of every sequence of operations that
starts in an empty root scope, all results so far are those of the maps; operations fail, and change
things, as they should; a cell that is obtained shows all later assignments to it; and opening a scope and
closing it again leaves every outer name with its cell, which holds the last value that was assigned to the
name while it was not shadowed.  The evaluator works on its scopes by these operations. -/
theorem scopes_refine_frames (ops : List ScopeOperation) {body : List ScopeOperation}
    (hbody : ScopeOperation.balanced 0 body = true) {p : Standpoint}
    (hp : p = Standpoint.start.after ops) :
    (Standpoint.start.run ops).1 = (Frames.run [∅] ops).1 ∧
      p.Regular ∧
      (∀ op c, (p.step op).1 = .found c → ∀ later,
        ((p.step op).2.after later).scopes.variableAt c =
          ⟨((p.step op).2.scopes.variableAt c).type,
            ((p.step op).2.assigned c later).getLast?.getD
              ((p.step op).2.scopes.variableAt c).value⟩) ∧
      p.Restored (p.after (.openScope :: body ++ [.closeScope])) body ∧
      ∀ m : Machine, m.Sound → m.OperatesOnScopes := by
  have htidy : p.Tidy := by
    rw [hp]
    exact Standpoint.start_tidy.after ops
  refine ⟨(Standpoint.start_represents.run Standpoint.start_tidy ops).1, htidy.regular, ?_,
    htidy.restored hbody, fun m hm => hm.operatesOnScopes⟩
  intro op c hc later
  exact htidy.observes hc later

/-- A scope in which `a` is assigned to, shadowed and assigned to again, also from a scope inside. -/
def ScopeOperation.shadowing : List ScopeOperation :=
  [.assign "a" (.int 2), .declare "a" none, .assign "a" (.int 3), .openScope, .assign "a" (.int 4),
    .closeScope]

/-- After `a` was declared and assigned 1, such a scope leaves 2 in its cell. -/
theorem scopes_refine_frames_shadowing :
    ∃ p : Standpoint, p = Standpoint.start.after [.declare "a" none, .assign "a" (.int 1)] ∧
      ScopeOperation.balanced 0 ScopeOperation.shadowing = true ∧
      p.find? false "a" = some ⟨0⟩ ∧ p.scopes.variableAt ⟨0⟩ = ⟨none, .int 1⟩ ∧
      (p.after (.openScope :: ScopeOperation.shadowing ++ [.closeScope])).scopes.variableAt ⟨0⟩ =
        ⟨none, .int 2⟩ := by
  have hbody : ScopeOperation.balanced 0 ScopeOperation.shadowing = true := rfl
  refine ⟨_, rfl, hbody, rfl, rfl, ?_⟩
  have h := scopes_refine_frames [.declare "a" none, .assign "a" (.int 1)] hbody rfl
  exact h.2.2.2.1.found "a" ⟨0⟩ rfl

end ProtoScript
