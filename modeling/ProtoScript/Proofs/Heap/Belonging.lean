import ProtoScript.Proofs.Heap.Growth

/-!
# Which nominal types a value belongs to

As long as the core variables hold the core types, the type of a value can be read off the heap alone:
`Heap.typeOf`.  A value belongs to a nominal type if all the parts of its type are that nominal type, or
nominal types of the same name; that is when a check against the nominal type succeeds.  Since the
heap only grows, a value that belongs to a nominal type does so forever.
-/

namespace ProtoScript

/-- The core type of a value by itself. -/
def Value.coreType : Value → CoreType
  | null => .null
  | bool _ => .bool
  | int _ => .int
  | float _ => .float
  | text _ => .str
  | array _ => .array
  | procedure _ | native _ => .func
  | object _ => .object

theorem Value.name_coreType (v : Value) : v.coreType.name = v.typeName := by
  cases v <;> rfl

/-- Each core variable holds its core type. -/
def Machine.KeepsCore (m : Machine) : Prop :=
  ∀ t : CoreType, m.globalType? t.name = some t.ref

namespace Heap

/-- The type of a value, where the core variables hold the core types. -/
def typeOf (h : Heap) (v : Value) : ObjectRef :=
  match v with
  | .object o =>
    if h.isType o then CoreType.type.ref
    else
      match h.parent? o with
      | some p => if h.isType p then p else CoreType.object.ref
      | none => CoreType.object.ref
  | v => v.coreType.ref

/-- Whether a value belongs to a nominal type. -/
def Belongs (h : Heap) (v : Value) (d : ObjectRef) : Prop :=
  ∀ x, h.Part (h.typeOf v) x → ¬ h.IsUnion x → d = x ∨ h.SameNominal d x

section

variable {h h' : Heap}

/-- The type of a value is the core type, or a type that is its parent. -/
theorem isType_typeOf (hcore : ∀ t : CoreType, h.isType t.ref = true) (v : Value) :
    h.isType (h.typeOf v) = true := by
  unfold typeOf
  split
  · split
    · exact hcore _
    · split
      · split
        · assumption
        · exact hcore _
      · exact hcore _
  · exact hcore _

/-- The type of a value never changes. -/
theorem Grown.typeOf_eq (hg : h.Grown h') (hc : h.Closed) {v : Value} (hv : h.Has v) :
    h'.typeOf v = h.typeOf v := by
  cases v with
  | object o =>
    have hparent : h'.parent? o = h.parent? o := hg.parent?_eq o hv
    simp only [typeOf, hg.isType_eq hv, hparent]
    rcases hp : h.parent? o with _ | p
    · rfl
    · simp only [hg.isType_eq (hc.parent o p hp)]
  | _ => rfl

/-- The parts of a type never change. -/
theorem Grown.part (hg : h.Grown h') (hsides : h.SidesAreTypes) {t x : ObjectRef}
    (ht : h.isType t = true) (hx : h'.Part t x) : h.Part t x := by
  induction hx with
  | self => exact .self
  | left hu hkind ih =>
    exact ih.left ((hg.union_iff (has_of_isType (ih.isType hsides ht))).mp hkind)
  | right hu hkind ih =>
    exact ih.right ((hg.union_iff (has_of_isType (ih.isType hsides ht))).mp hkind)

/-- A value belongs to a nominal type forever. -/
theorem Grown.belongs (hg : h.Grown h') (hc : h.Closed)
    (hcore : ∀ t : CoreType, h.isType t.ref = true) {v : Value} {d : ObjectRef} (hv : h.Has v)
    (hd : h.isType d = true) (hbelongs : h.Belongs v d) : h'.Belongs v d := by
  intro x hx hunion
  rw [hg.typeOf_eq hc hv] at hx
  have hpart : h.Part (h.typeOf v) x := hg.part hc.sides (isType_typeOf hcore v) hx
  have hhas : h.Has (.object x) := has_of_isType (hpart.isType hc.sides (isType_typeOf hcore v))
  have hunion' : ¬ h.IsUnion x := by
    rintro ⟨l, r, hkind⟩
    exact hunion ⟨l, r, (hg.union_iff hhas).mpr hkind⟩
  refine (hbelongs x hpart hunion').imp_right ?_
  rintro ⟨name, hkind, hkind'⟩
  exact ⟨name, (hg.nominal_iff (has_of_isType hd)).mpr hkind, (hg.nominal_iff hhas).mpr hkind'⟩

end

end Heap

/-- The type of a value can be read off the heap. -/
theorem Machine.KeepsCore.runtimeType?_eq {m : Machine} (hm : m.KeepsCore) (v : Value) :
    m.runtimeType? v = some (m.heap.typeOf v) := by
  have hscalar (v : Value) : m.globalType? v.typeName = some v.coreType.ref := by
    rw [← v.name_coreType]
    exact hm v.coreType
  cases v with
  | object o =>
    have htype : m.globalType? "Type" = some CoreType.type.ref := hm .type
    have hobject : m.globalType? "Object" = some CoreType.object.ref := hm .object
    simp only [runtimeType?, Heap.typeOf, htype, hobject]
    rcases m.heap.parent? o with _ | p <;> dsimp only <;> split
    · rfl
    · rfl
    · rfl
    · split <;> rfl
  | _ => exact hscalar _

/-- The core types are types. -/
theorem Machine.KeepsCore.isType {m : Machine} (hm : m.KeepsCore) (t : CoreType) :
    m.heap.isType t.ref = true := by
  have ht := hm t
  unfold globalType? at ht
  repeat' split at ht
  all_goals first
    | cases ht; assumption
    | cases ht

/-- A check against a nominal type succeeds exactly for the values that belong to it. -/
theorem Machine.KeepsCore.typecheck_iff {m : Machine} (hm : m.KeepsCore)
    (hsides : m.heap.SidesAreTypes) {v : Value} {d : ObjectRef} (hd : m.heap.IsNominal d)
    {pos : Position} : Eval.typecheck v d pos m = .ok () m ↔ m.heap.Belongs v d := by
  have htype : m.heap.isType (m.heap.typeOf v) = true := Heap.isType_typeOf hm.isType v
  rw [Eval.typecheck_eq_ok_iff, hm.runtimeType?_eq]
  simp only [Option.some.injEq, exists_eq_left', m.admits_eq_accepts (.inl hd)]
  exact Heap.accepts_nominal_iff hsides hd htype

end ProtoScript
