import ProtoScript.Proofs.Session.Discipline
import ProtoScript.Proofs.Steady.Machine

/-!
# New machines are steady

The core types and their templates refer to each other only.  The core variables are defined first, and
the native functions that a session adds have other names.  Names of the root scope are bound to
variables of their own, so that a definition changes what its own name holds and nothing else; the core
variables hold the core types whichever native functions are defined afterwards.
-/

namespace ProtoScript

/-! ## Definitions in the root scope -/

namespace Scopes

/-- The names of the root scope are bound to variables of their own. -/
structure Separate (s : Scopes) : Prop where
  root_lt : root.index < s.scopes.size
  cell_lt : ∀ name c, s.findLocal? root name = some c → c.index < s.cells.size
  injective : ∀ name name' c,
    s.findLocal? root name = some c → s.findLocal? root name' = some c → name = name'

/-- What the variable of a name of the root scope was given. -/
def held? (s : Scopes) (name : String) : Option Value :=
  (s.findLocal? root name).bind fun c => (s.cell c).contents

variable {s : Scopes}

/-- A name that is defined anew gets a new variable. -/
theorem define_of_free {name : String} (hname : s.findLocal? root name = none) (v : Value) :
    s.define name v = (s.bind root name none).2.put ⟨s.cells.size⟩ v := by
  simp only [define, declare?, hname]
  rfl

/-- A name that is bound keeps its variable. -/
theorem define_of_bound {name : String} {c : CellRef} (hname : s.findLocal? root name = some c)
    (v : Value) : s.define name v = s.put c v := by
  simp only [define, declare?, hname]

/-- Where names are bound after a definition. -/
theorem findLocal?_define (hs : s.Separate) (name : String) (v : Value) :
    ∃ c, c.index < (s.define name v).cells.size ∧
      (s.findLocal? root name = none ∧ c.index = s.cells.size ∨ s.findLocal? root name = some c) ∧
      ∀ other, (s.define name v).findLocal? root other =
        if name = other then some c else s.findLocal? root other := by
  cases hname : s.findLocal? root name with
  | none =>
    rw [define_of_free hname]
    refine ⟨⟨s.cells.size⟩, by simp [put, bind], .inl ⟨rfl, rfl⟩, fun other => ?_⟩
    change (s.bind root name none).2.findLocal? root other = _
    by_cases hother : name = other
    · subst hother
      rw [if_pos rfl, findLocal?_bind_self hs.root_lt]
    · rw [if_neg hother, findLocal?_bind_of_ne _ _ _ _ hother]
  | some c =>
    rw [define_of_bound hname]
    refine ⟨c, by simpa [put] using hs.cell_lt name c hname, .inr rfl, fun other => ?_⟩
    change s.findLocal? root other = _
    by_cases hother : name = other
    · subst hother
      rw [if_pos rfl, hname]
    · rw [if_neg hother]

theorem cells_size_define (s : Scopes) (name : String) (v : Value) :
    s.cells.size ≤ (s.define name v).cells.size := by
  cases hname : s.findLocal? root name with
  | none =>
    rw [define_of_free hname]
    simp [put, bind]
  | some c =>
    rw [define_of_bound hname]
    simp [put]

/-- Names stay bound to variables of their own. -/
theorem Separate.define (hs : s.Separate) (name : String) (v : Value) :
    (s.define name v).Separate := by
  obtain ⟨c, hlt, hc, hfind⟩ := findLocal?_define hs name v
  -- no other name is bound to the variable of this one
  have hother {other : String} (hne : name ≠ other) : s.findLocal? root other ≠ some c := by
    intro hbound
    rcases hc with ⟨-, hindex⟩ | hname
    · exact Nat.ne_of_lt (hs.cell_lt other c hbound) hindex
    · exact hne (hs.injective name other c hname hbound)
  refine ⟨?_, fun other c' hc' => ?_, fun first second c' hfirst hsecond => ?_⟩
  · rw [(define_same s name v).1]
    exact hs.root_lt
  · rw [hfind] at hc'
    split at hc'
    · obtain rfl := Option.some.inj hc'
      exact hlt
    · exact Nat.lt_of_lt_of_le (hs.cell_lt other c' hc') (cells_size_define s name v)
  · rw [hfind] at hfirst hsecond
    split at hfirst <;> split at hsecond
    · rename_i heq heq'
      exact heq.symm.trans heq'
    · rename_i heq hne
      exact absurd (hsecond.trans hfirst.symm) (hother hne)
    · rename_i hne heq
      exact absurd (hfirst.trans hsecond.symm) (hother hne)
    · exact hs.injective first second c' hfirst hsecond

/-- What variables hold after a definition: the variable of the name holds the value, and all others
what they held before. -/
theorem cell_define (hs : s.Separate) (name : String) (v : Value) (d : CellRef) :
    ((s.define name v).findLocal? root name = some d ∧
        ((s.define name v).cell d).contents = some v ∧
        (((s.define name v).cell d).type = none ∨
          ((s.define name v).cell d).type = (s.cell d).type)) ∨
      (s.define name v).findLocal? root name ≠ some d ∧ (s.define name v).cell d = s.cell d := by
  cases hname : s.findLocal? root name with
  | none =>
    rw [define_of_free hname, cell_put]
    have hfind : ((s.bind root name none).2.put ⟨s.cells.size⟩ v).findLocal? root name =
        some ⟨s.cells.size⟩ := findLocal?_bind_self hs.root_lt name none
    rw [hfind]
    by_cases hd : (⟨s.cells.size⟩ : CellRef) = d
    · subst hd
      refine .inl ⟨rfl, ?_⟩
      simp [bind, cell]
    · have hindex : d.index ≠ s.cells.size := fun heq => hd (by cases d; simpa using heq.symm)
      refine .inr ⟨fun heq => hd (Option.some.inj heq), ?_⟩
      rw [if_neg fun hboth => hd hboth.1, cell_bind, if_neg hindex]
  | some c =>
    rw [define_of_bound hname, cell_put]
    have hfind : (s.put c v).findLocal? root name = some c := hname
    rw [hfind]
    by_cases hd : c = d
    · subst hd
      refine .inl ⟨rfl, ?_⟩
      simp [hs.cell_lt name c hname]
    · exact .inr ⟨fun heq => hd (Option.some.inj heq), if_neg fun hboth => hd hboth.1⟩

/-- After a definition, the name holds the value and every other name what it held before. -/
theorem held?_define (hs : s.Separate) (name : String) (v : Value) (other : String) :
    (s.define name v).held? other = if name = other then some v else s.held? other := by
  have hs' := hs.define name v
  obtain ⟨c, -, -, hfind⟩ := findLocal?_define hs name v
  have hself : (s.define name v).findLocal? root name = some c := (hfind name).trans (if_pos rfl)
  unfold held?
  by_cases hother : name = other
  · subst hother
    rw [if_pos rfl, hself]
    rcases cell_define hs name v c with ⟨-, hcontents, -⟩ | ⟨hne, -⟩
    · exact hcontents
    · exact absurd hself hne
  · rw [if_neg hother, hfind other, if_neg hother]
    cases hold : s.findLocal? root other with
    | none => rfl
    | some d =>
      rcases cell_define hs name v d with ⟨hd, -⟩ | ⟨-, heq⟩
      · have hnew : (s.define name v).findLocal? root other = some d := by
          rw [hfind other, if_neg hother, hold]
        exact absurd (hs'.injective name other d hd hnew) hother
      · exact congrArg Cell.contents heq

/-- A root scope without bindings has no names to be separated. -/
theorem initial_separate : initial.Separate where
  root_lt := by decide
  cell_lt _ _ hc := absurd hc (by simp [initial, findLocal?, scope, root])
  injective _ _ _ hc := absurd hc (by simp [initial, findLocal?, scope, root])

end Scopes

/-! ## The core heap -/

/-- The core types are types. -/
theorem CoreType.isType_ref (t : CoreType) : coreHeap.isType t.ref = true := by
  cases t <;> rfl

/-- The templates are in the core heap. -/
theorem CoreType.has_template (t : CoreType) : coreHeap.Has (.object t.template) := by
  have hsize : coreHeap.objects.size = 22 := rfl
  have hlt : t.template.index < 22 := by
    cases t <;> decide
  exact hlt.trans_eq hsize.symm

theorem CoreType.mem_nativeMembers {natives : List Native} {entry : String × Value}
    (hentry : entry ∈ nativeMembers natives) : ∃ n, entry.2 = .native n := by
  obtain ⟨n, -, rfl⟩ := List.mem_map.mp hentry
  exact ⟨n, rfl⟩

/-- A core type refers to its template and its parent only. -/
theorem CoreType.hasObject_typeObject (t : CoreType) : coreHeap.HasObject t.typeObject := by
  refine ⟨fun name v hv => ?_, fun p hp => ?_, nofun, fun hkind => ?_⟩
  · rcases List.mem_append.mp hv with hnative | htemplate
    · obtain ⟨n, hn⟩ := mem_nativeMembers hnative
      rw [show v = .native n from hn]
      trivial
    · split at htemplate
      · cases List.mem_singleton.mp htemplate
        exact t.has_template
      · cases htemplate
  · obtain rfl := Option.some.inj hp
    exact Heap.has_of_isType t.parent.isType_ref
  · have hname : t.name = "" := (ObjectKind.type.inj hkind).1
    revert hname
    cases t <;> decide

/-- A template refers to the empty array at most. -/
theorem CoreType.hasObject_templateObject (t : CoreType) : coreHeap.HasObject t.templateObject := by
  refine ⟨fun name v hv => ?_, nofun, nofun, nofun⟩
  obtain ⟨w, hw, heq⟩ := Option.map_eq_some_iff.mp (Option.mem_toList.mp hv)
  obtain ⟨-, rfl⟩ := Prod.ext_iff.mp heq
  have harrays : coreHeap.arrays.size = 1 := rfl
  cases t with
  | array =>
    obtain rfl := Option.some.inj hw
    exact Nat.zero_lt_one.trans_eq harrays.symm
  | type => cases hw
  | object => cases hw
  | num => cases hw
  | macroType => cases hw
  | _ =>
    obtain rfl := Option.some.inj hw
    trivial

/-- In the heap that a machine starts with, everything refers to something in it. -/
theorem coreHeap_closed : coreHeap.Closed := by
  refine Heap.closed_of_hasObject (fun o => ?_) (fun a v hv => ?_)
  · rcases ho : coreHeap.objects[o.index]? with _ | object
    · rw [Heap.object, ho]
      exact Heap.hasObject_plain _
    · rw [Heap.object, ho]
      have hmem : object ∈ CoreType.all.map CoreType.typeObject ++
          CoreType.all.map CoreType.templateObject :=
        List.mem_toArray.mp (Array.mem_of_getElem? ho)
      rcases List.mem_append.mp hmem with htype | htemplate
      · obtain ⟨t, -, rfl⟩ := List.mem_map.mp htype
        exact t.hasObject_typeObject
      · obtain ⟨t, -, rfl⟩ := List.mem_map.mp htemplate
        exact t.hasObject_templateObject
  · have helements : coreHeap.elements a = #[] := by
      obtain ⟨i⟩ := a
      cases i <;> rfl
    rw [helements] at hv
    simp at hv

/-! ## New machines -/

/-- No native function has the name of a core type. -/
theorem Native.name_ne_core (n : Native) (t : CoreType) : n.name ≠ t.name := by
  have hn : n.name.toList.head?.map Char.isUpper = some false := by cases n <;> rfl
  have ht : t.name.toList.head?.map Char.isUpper = some true := by cases t <;> rfl
  intro heq
  rw [heq, ht] at hn
  cases hn

/-- Scopes in which only definitions were made so far: no variable has a declared type, and all that they
hold is in the core heap. -/
structure Scopes.Defined (s : Scopes) : Prop where
  separate : s.Separate
  untyped : ∀ c, (s.cell c).type = none
  contents : ∀ c v, (s.cell c).contents = some v → coreHeap.Has v

/-- Defining something that is in the core heap. -/
theorem Scopes.Defined.define {s : Scopes} (hs : s.Defined) (name : String) {v : Value}
    (hv : coreHeap.Has v) : (s.define name v).Defined := by
  refine ⟨hs.separate.define name v, fun c => ?_, fun c w hw => ?_⟩
  · rcases cell_define hs.separate name v c with ⟨-, -, htype | htype⟩ | ⟨-, heq⟩
    · exact htype
    · exact htype.trans (hs.untyped c)
    · rw [heq]
      exact hs.untyped c
  · rcases cell_define hs.separate name v c with ⟨-, hcontents, -⟩ | ⟨-, heq⟩
    · obtain rfl := Option.some.inj (hcontents.symm.trans hw)
      exact hv
    · rw [heq] at hw
      exact hs.contents c w hw

/-- Making several definitions. -/
theorem Scopes.Defined.defineAll {s : Scopes} (hs : s.Defined) {entries : List (String × Value)}
    (hentries : ∀ entry ∈ entries, coreHeap.Has entry.2) :
    (entries.foldl (fun s entry => s.define entry.1 entry.2) s).Defined := by
  induction entries generalizing s with
  | nil => exact hs
  | cons entry entries ih =>
    exact ih (hs.define entry.1 (hentries entry List.mem_cons_self))
      fun e he => hentries e (List.mem_cons_of_mem _ he)

/-- In the scopes that hold the core, only definitions were made. -/
theorem coreScopes_defined : coreScopes.Defined := by
  have hinitial : Scopes.initial.Defined :=
    ⟨Scopes.initial_separate, fun _ => rfl, fun _ _ hv => by cases hv⟩
  refine hinitial.defineAll fun entry hentry => ?_
  rcases List.mem_append.mp hentry with hcore | hnative
  · obtain ⟨t, -, rfl⟩ := List.mem_map.mp hcore
    exact Heap.has_of_isType t.isType_ref
  · obtain ⟨n, hn⟩ := CoreType.mem_nativeMembers hnative
    rw [hn]
    trivial

set_option maxRecDepth 4000 in
/-- The core variables hold the core types at first. -/
theorem held?_coreScopes (t : CoreType) : coreScopes.held? t.name = some (.object t.ref) := by
  cases t <;> rfl

/-- What the machine of a new session is like. -/
theorem Machine.fresh_defined (file : String) (host : Host) (natives : List Native) :
    (Machine.fresh file host natives).heap = coreHeap ∧
      (Machine.fresh file host natives).operands = .empty ∧
      (Machine.fresh file host natives).scopes.Defined ∧
      ∀ t : CoreType, (Machine.fresh file host natives).scopes.held? t.name = some (.object t.ref) := by
  have hfold (m : Machine) (hheap : m.heap = coreHeap) (hoperands : m.operands = .empty)
      (hdefined : m.scopes.Defined)
      (hcore : ∀ t : CoreType, m.scopes.held? t.name = some (.object t.ref)) :
      (natives.foldl defineNative m).heap = coreHeap ∧
        (natives.foldl defineNative m).operands = .empty ∧
        (natives.foldl defineNative m).scopes.Defined ∧
        ∀ t : CoreType,
          (natives.foldl defineNative m).scopes.held? t.name = some (.object t.ref) := by
    induction natives generalizing m with
    | nil => exact ⟨hheap, hoperands, hdefined, hcore⟩
    | cons n natives ih =>
      refine ih (m.defineNative n) hheap hoperands (hdefined.define n.name trivial) fun t => ?_
      have hheld := Scopes.held?_define hdefined.separate n.name (.native n) t.name
      rw [if_neg (n.name_ne_core t)] at hheld
      exact hheld.trans (hcore t)
  have hdefined := coreScopes_defined
  have hcore := held?_coreScopes
  unfold Machine.fresh Machine.initial
  -- how the scopes are made is of no interest any more
  generalize coreScopes = scopes at hdefined hcore ⊢
  exact hfold _ rfl rfl hdefined hcore

/-- A new machine is steady. -/
theorem Machine.fresh_steady (file : String) (host : Host) (natives : List Native) :
    (Machine.fresh file host natives).Steady := by
  obtain ⟨hheap, hoperands, hdefined, hcore⟩ := Machine.fresh_defined file host natives
  set m := Machine.fresh file host natives
  have huntyped {c : CellRef} {d : ObjectRef} (hd : (m.scopes.cell c).type = some d) : False := by
    rw [hdefined.untyped c] at hd
    cases hd
  refine ⟨⟨?_, fun c d hd => (huntyped hd).elim, fun c v hv => ?_, fun c v d _ hd => (huntyped hd).elim,
    fun v hv => ?_⟩, fun t => ?_⟩
  · rw [hheap]
    exact coreHeap_closed
  · rw [hheap]
    exact hdefined.contents c v hv
  · rw [hoperands] at hv
    cases hv
  · obtain ⟨c, hc, hcontents⟩ := Option.bind_eq_some_iff.mp (hcore t)
    refine globalType?_eq_some_iff.mpr ⟨c, hc, ?_, ?_⟩
    · rw [Cell.value, hcontents]
      rfl
    · rw [hheap]
      exact t.isType_ref

end ProtoScript
