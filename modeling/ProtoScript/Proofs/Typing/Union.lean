import ProtoScript.Proofs.Typing.Nominal

/-!
# What unions accept

The reading of unions is that a type accepts a union if it accepts both sides, and that a union accepts
any other type if one of its sides does. The comparison of types follows it on the actual side, as long as
the declared side has no unions. On the declared side it accepts whatever it should, as long as the
actual side has no unions, but it may accept more: a pair that was refused for one side of a union
counts as related when it comes up again. So a union of a type with itself accepts everything.

Two different nominal types never meet the same pair, and for these a check against the union succeeds
exactly if one against a side does.
-/

namespace ProtoScript

namespace Heap

section

variable (h : Heap) (resolve : Resolver) (R F : ObjectRef → ObjectRef → Prop)

/-- The reading of unions: both sides of an actual union are accepted, or one side of a declared one
accepts; types that are no unions are alike. -/
def Meets (a b : ObjectRef) : Prop :=
  match (h.object a).kind, (h.object b).kind with
  | _, .union l r => R a l ∧ R a r
  | .union l r, _ => R l b ∨ R r b
  | _, _ => h.Alike resolve R F a b

end

section

variable {h : Heap} {resolve : Resolver} {R F : ObjectRef → ObjectRef → Prop}

/-- What the search demands is what the reading asks for, unless there are unions on both sides. -/
theorem holds_kindsDemand_iff_meets {a b : ObjectRef} (hproper : (Comparison.types a b).Proper h)
    (hone : ¬ h.IsUnion a ∨ ¬ h.IsUnion b) :
    (h.kindsDemand resolve a b).Holds (comparisons R F) ↔ h.Meets resolve R F a b := by
  by_cases ha : h.IsUnion a
  · have hb : ¬ h.IsUnion b := hone.resolve_left (not_not.mpr ha)
    obtain ⟨l, r, hka⟩ := ha
    obtain ⟨name, nominal, hkb⟩ := kind_of_isType hproper.2 hb
    simp only [kindsDemand, Meets, hka, hkb]
    exact Iff.rfl
  · obtain ⟨name, nominal, hka⟩ := kind_of_isType hproper.1 ha
    by_cases hb : h.IsUnion b
    · obtain ⟨l, r, hkb⟩ := hb
      simp only [kindsDemand, Meets, hka, hkb]
      exact Iff.rfl
    · rw [holds_kindsDemand hproper ha hb]
      obtain ⟨name', nominal', hkb⟩ := kind_of_isType hproper.2 hb
      simp only [Meets, hka, hkb]

end

end Heap

/-- A check against a union of two different nominal types succeeds exactly if one against a side does,
unless the union itself is the type of the value. -/
theorem Machine.typecheck_union_iff {m : Machine} (hsides : m.heap.SidesAreTypes) {v : Value}
    {u l r : ObjectRef} {pos : Position} (hu : (m.heap.object u).kind = .union l r)
    (hl : m.heap.IsNominal l) (hr : m.heap.IsNominal r) (hlr : l ≠ r)
    (hv : m.runtimeType? v ≠ some u) :
    Eval.typecheck v u pos m = .ok () m ↔
      Eval.typecheck v l pos m = .ok () m ∨ Eval.typecheck v r pos m = .ok () m := by
  simp only [Eval.typecheck_eq_ok_iff]
  rcases htype : m.runtimeType? v with _ | t
  · simp
  · have ht : m.heap.isType t = true := m.isType_of_runtimeType? htype
    have hut : u ≠ t := fun heq => hv (by rw [htype, heq])
    simp only [Option.some.injEq, exists_eq_left', m.admits_eq_accepts (.inl hl),
      m.admits_eq_accepts (.inl hr), m.admits_eq_accepts (.inr ⟨l, r, hu⟩),
      Heap.accepts_union_of_nominal hsides hu hl hr hlr ht hut, Bool.or_eq_true]

open Heap in
/-- **What unions accept.** Between types of a graph in which values resolve to types, and parents of
types and sides of unions are types:

* if no union is reached from the declared side, acceptance is the reading of unions;
* if no union is reached from the actual side, acceptance follows from the reading of unions;
* a check of a value against a union of two different nominal types succeeds exactly if the check
  against one of them does, unless the union itself is the type of the value. -/
theorem union_acceptance {h : Heap} {resolve : Resolver}
    (hresolve : ∀ v t, resolve v = some t → h.isType t = true)
    (hparent : ∀ t p, h.isType t = true → h.parent? t = some p → h.isType p = true)
    (hsides : h.SidesAreTypes) {d t : ObjectRef} (hd : h.isType d = true) (ht : h.isType t = true) :
    ((∀ o, Reaches h resolve d o → ¬ h.IsUnion o) →
      (h.accepts resolve d t = true ↔
        ∃ R F, R d t ∧ h.IsSimulation resolve R F (h.Meets resolve))) ∧
    ((∀ o, Reaches h resolve t o → ¬ h.IsUnion o) →
      (∃ R F, R d t ∧ h.IsSimulation resolve R F (h.Meets resolve)) →
        h.accepts resolve d t = true) ∧
    ∀ (m : Machine) (v : Value) (u l r : ObjectRef) (pos : Position), m.heap.SidesAreTypes →
      (m.heap.object u).kind = .union l r → m.heap.IsNominal l → m.heap.IsNominal r → l ≠ r →
      m.runtimeType? v ≠ some u →
        (Eval.typecheck v u pos m = .ok () m ↔
          Eval.typecheck v l pos m = .ok () m ∨ Eval.typecheck v r pos m = .ok () m) := by
  have hwell (o : ObjectRef) : h.WellTyped resolve o :=
    ⟨fun t p _ => hparent t p, fun u l r _ => hsides u l r⟩
  have hdt : Between h resolve d t (.types d t) := ⟨⟨hd, ht⟩, .self, .self⟩
  refine ⟨fun hunion => ?_, fun hunion => ?_, ?_⟩
  · refine accepts_iff_of_confined (confined_between hresolve (hwell d) (hwell t) hunion) ?_ hdt
    intro R F p q hpq
    exact holds_kindsDemand_iff_meets hpq.1 (.inl (hunion p hpq.2.1))
  · rintro ⟨R, F, hR, hsim⟩
    refine hsim.accepts (enclosed_between hresolve (hwell d) (hwell t)) ?_ hdt hR
    intro R F p q hpq
    exact holds_kindsDemand_iff_meets hpq.1 (.inr (hunion q hpq.2.2))
  · intro m v u l r pos hsides hu hl hr hlr hv
    exact Machine.typecheck_union_iff hsides hu hl hr hlr hv

/-- Two nominal types of one name, their union, and two structural types with a member: the first asks
for one of the nominal types, the second offers the union. -/
def namesakes : Heap where
  objects := #[.type "Int" none .empty true, .type "Int" none .empty true, .union ⟨0⟩ ⟨1⟩,
    .type "A" none ⟨[("x", .object ⟨0⟩)]⟩ false, .type "B" none ⟨[("x", .object ⟨2⟩)]⟩ false]
  arrays := #[]

/-- A machine on which the first of the nominal types of `namesakes` is the type of integers. -/
def withNamesakes : Machine :=
  { Machine.initial "" default with
    heap := namesakes
    scopes := Scopes.initial.define "Int" (.object ⟨0⟩) }

/-- The reading of unions relates the two structural types of `namesakes`, and a number passes the check
against the union. -/
theorem union_acceptance_namesakes :
    (∃ R F, R ⟨3⟩ ⟨4⟩ ∧
      namesakes.IsSimulation (fun _ => none) R F (namesakes.Meets fun _ => none)) ∧
    Eval.typecheck (.int 5) ⟨2⟩ .outside withNamesakes = .ok () withNamesakes := by
  have hresolve (v : Value) (t : ObjectRef) (ht : (none : Option ObjectRef) = some t) :
      namesakes.isType t = true := by
    cases ht
  have hparent (t p : ObjectRef) (_ : namesakes.isType t = true)
      (hp : namesakes.parent? t = some p) : namesakes.isType p = true := by
    rcases t with ⟨_ | _ | _ | _ | _ | n⟩ <;> cases hp
  have hsides : namesakes.SidesAreTypes := by
    rintro ⟨_ | _ | _ | _ | _ | n⟩ l r hkind <;> cases hkind
    exact ⟨rfl, rfl⟩
  have hmembers (name : String) (v : Value) (hmem : (name, v) ∈ (namesakes.object ⟨3⟩).members.entries) :
      v = .object ⟨0⟩ :=
    (Prod.ext_iff.mp (List.mem_singleton.mp hmem)).2
  have hreaches (o : ObjectRef) (ho : Heap.Reaches namesakes (fun _ => none) ⟨3⟩ o) :
      o = ⟨3⟩ ∨ o = ⟨0⟩ := by
    induction ho with
    | self => exact .inl rfl
    | parent _ hp ih => rcases ih with rfl | rfl <;> cases hp
    | member _ hmem ih =>
      rcases ih with rfl | rfl
      · exact .inr (Value.object.inj (hmembers _ _ hmem))
      · cases hmem
    | memberType _ hmem htype ih =>
      rcases ih with rfl | rfl
      · rw [hmembers _ _ hmem] at htype
        exact .inr (Option.some.inj htype).symm
      · cases hmem
    | left _ hkind ih => rcases ih with rfl | rfl <;> cases hkind
    | right _ hkind ih => rcases ih with rfl | rfl <;> cases hkind
  have hunion (o : ObjectRef) (ho : Heap.Reaches namesakes (fun _ => none) ⟨3⟩ o) :
      ¬ namesakes.IsUnion o := by
    rintro ⟨l, r, hkind⟩
    rcases hreaches o ho with rfl | rfl <;> cases hkind
  have hmain := union_acceptance (d := ⟨3⟩) (t := ⟨4⟩) hresolve hparent hsides rfl rfl
  refine ⟨(hmain.1 hunion).mp (by decide +kernel), ?_⟩
  have hone : Eval.typecheck (.int 5) ⟨0⟩ .outside withNamesakes = .ok () withNamesakes :=
    Eval.typecheck_eq_ok_iff.mpr ⟨⟨0⟩, by decide +kernel, by decide +kernel⟩
  exact (hmain.2.2 withNamesakes (.int 5) ⟨2⟩ ⟨0⟩ ⟨1⟩ .outside hsides rfl ⟨_, rfl⟩ ⟨_, rfl⟩
    (by decide) (by decide +kernel)).mpr (.inl hone)

/-- Two nominal types, and the union of the first with itself. -/
def doubled : Heap where
  objects := #[.type "Int" none .empty true, .type "Str" none .empty true, .union ⟨0⟩ ⟨0⟩]
  arrays := #[]

/-- A union of a type with itself accepts what the type refuses, against the reading of unions. -/
theorem union_of_same_sides_accepts :
    doubled.accepts (fun _ => none) ⟨2⟩ ⟨1⟩ = true ∧ doubled.accepts (fun _ => none) ⟨0⟩ ⟨1⟩ = false ∧
    ¬ ∃ R F, R ⟨2⟩ ⟨1⟩ ∧ doubled.IsSimulation (fun _ => none) R F (doubled.Meets fun _ => none) := by
  refine ⟨by decide +kernel, by decide +kernel, ?_⟩
  rintro ⟨R, F, hR, hsim⟩
  have hside : R ⟨0⟩ ⟨1⟩ := by
    rcases hsim.types _ _ hR with heq | hmeets
    · cases heq
    · exact hmeets.elim id id
  rcases hsim.types _ _ hside with heq | halike
  · cases heq
  · have hsame : ¬ doubled.SameNominal ⟨0⟩ ⟨1⟩ := by
      rintro ⟨name, hint, hstr⟩
      have hnames : ObjectKind.type "Int" true = .type "Str" true := hint.trans hstr.symm
      simp at hnames
    rcases halike with ⟨-, hnominal⟩ | ⟨hneither, -⟩
    · exact hsame hnominal
    · exact hneither (.inl ⟨"Int", rfl⟩)

end ProtoScript
